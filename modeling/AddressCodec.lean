import AddressCodec.Address.Session
import AddressCodec.CommandLine.Command
import AddressCodec.Main
import AddressCodec.Proofs.Bytes
import AddressCodec.Proofs.Checked
import AddressCodec.Proofs.Checksum.Codewords
import AddressCodec.Proofs.Checksum.Remainder
import AddressCodec.Proofs.Checksum.Guarded
import AddressCodec.Proofs.Regroup.Bits
import AddressCodec.Proofs.Regroup.Cutting
import AddressCodec.Proofs.Regroup.RoundTrip
import AddressCodec.Proofs.Regroup.Guarded
import AddressCodec.Proofs.Bech32.Characters
import AddressCodec.Proofs.Bech32.Canonical
import AddressCodec.Proofs.Bech32.Faults
import AddressCodec.Proofs.Bech32.Guarded
import AddressCodec.Proofs.Text.Quoted
import AddressCodec.Proofs.Value.Display
import AddressCodec.Proofs.Wire.Pieces
import AddressCodec.Proofs.Wire.Writing
import AddressCodec.Proofs.Wire.Violations
import AddressCodec.Proofs.Wire.Reading
import AddressCodec.Proofs.Wire.ReadSession
import AddressCodec.Proofs.Wire.WriteSession
import AddressCodec.Proofs.Wire.Limit
import AddressCodec.Proofs.Wire.Extension
import AddressCodec.Proofs.Wire.Truncation
import AddressCodec.Proofs.Wire.RepeatedKeys
import AddressCodec.Proofs.Wire.Faults
import AddressCodec.Proofs.Wire.Guarded
import AddressCodec.Proofs.Element.Builders
import AddressCodec.Proofs.Element.Keys
import AddressCodec.Proofs.Element.Sameness
import AddressCodec.Proofs.Element.Reordering
import AddressCodec.Proofs.Json.Elements
import AddressCodec.Proofs.Json.Injective
import AddressCodec.Proofs.Json.RepeatedKeys
import AddressCodec.Proofs.Address.Raw
import AddressCodec.Proofs.Address.Text
import AddressCodec.Proofs.Address.Networks
import AddressCodec.Proofs.Address.Formatting
import AddressCodec.Proofs.Address.DoubleErrors
import AddressCodec.Proofs.Address.TypingErrors
import AddressCodec.Proofs.Address.PrefixFree
import AddressCodec.Proofs.Address.Oversized
import AddressCodec.Proofs.Address.Faults
import AddressCodec.Proofs.Address.Guarded
import AddressCodec.Proofs.Address.Session
import AddressCodec.Proofs.CommandLine.Arguments
import AddressCodec.Proofs.CommandLine.Requests
import AddressCodec.Proofs.CommandLine.PublicKey
import AddressCodec.Proofs.CommandLine.RoundTrip
import AddressCodec.Proofs.CommandLine.Reports

import AddressCodec.Address.Codec

/-!
# Sessions with an address

An address that is changed and looked at step by step. What a step shows depends on the address at
that step alone, not on how it came about.
-/

namespace AddressCodec.Address

/-- A change of an address, or a look at it. -/
inductive Action where
  | set (extra : Option Element)
  | attach (extra : Element)
  | clear
  | take
  | format
  | toData
  | toJson
  /-- Shows whether the text reads back as the address. -/
  | reparse
  | compare (other : Address)
  /-- Shows whether the address is the same as the one with a text. -/
  | compareText (text : String)

/-- What a step shows. -/
inductive Answer where
  | done
  | extra (e : Option Element)
  | text (t : Except CodecError String)
  | data (bytes : Except CodecError (List UInt8))
  | json (t : Except CodecError String)
  | verdict (v : Except CodecError Bool)

/-- What an observation shows of an address, or what a change answers and makes of it. -/
def act (a : Address) : Action → Answer × Address
  | .set extra => (.done, a.setExtraData extra)
  | .attach extra => (.done, a.withExtraData extra)
  | .clear => (.done, a.clearExtraData)
  | .take => let (extra, rest) := a.takeExtraData; (.extra extra, rest)
  | .format => (.text a.format, a)
  | .toData => (.data a.toData, a)
  | .toJson => (.json a.jsonText, a)
  | .reparse => (.verdict ((a.format.bind parse).map a.same), a)
  | .compare other => (.verdict (.ok (a.same other)), a)
  | .compareText text => (.verdict ((parse text).map a.same), a)

/-- Carries out steps one after the other, and shows the address after each. -/
def session (a : Address) : List Action → List (Answer × Address)
  | [] => []
  | action :: actions =>
    let shown := a.act action
    shown :: shown.2.session actions

end AddressCodec.Address

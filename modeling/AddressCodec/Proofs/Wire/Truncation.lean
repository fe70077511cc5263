import AddressCodec.Proofs.Wire.Extension
import Mathlib

/-!
# Encodings that are cut off

The front of an encoding is refused for want of the rest: for a text that is longer than what is
left of it, if the cut goes through a text, and for the end of the buffer, if it does not. Where the
texts of an encoding stand is read off the tree (`Element.texts`); that readers report cuts by them
is proved step by step (`Reader.Starves`) and by induction on the depth
(`Reader.reportsCuts_elementWithin`). With what more bytes make of a run, this tells which verdicts
on a buffer are final (`Reader.verdicts_are_final`).
-/

namespace AddressCodec

/-! ## Texts of an encoding -/

/-- Where the bytes of a text stand: behind so many other bytes, and how many they are. -/
structure Span where
  start : Nat
  length : Nat
  deriving DecidableEq, Repr

namespace Span

/-- The same text behind some bytes more. -/
def shift (count : Nat) (text : Span) : Span :=
  ⟨count + text.start, text.length⟩

@[simp] lemma start_shift (count : Nat) (text : Span) :
    (text.shift count).start = count + text.start :=
  rfl

@[simp] lemma length_shift (count : Nat) (text : Span) : (text.shift count).length = text.length :=
  rfl

/-- So many bytes reach up to the text at least, but not up to its end. -/
def CutAt (text : Span) (k : Nat) : Prop :=
  text.start ≤ k ∧ k < text.start + text.length

/-- A cut of a text moves with it. -/
lemma cutAt_shift_iff {text : Span} {count k : Nat} :
    (text.shift count).CutAt (count + k) ↔ text.CutAt k := by
  rw [CutAt, CutAt, start_shift, length_shift]
  omega

/-- Texts moved twice are moved by both distances together. -/
lemma map_shift_map_shift (count more : Nat) (texts : List Span) :
    (texts.map (shift more)).map (shift count) = texts.map (shift (count + more)) := by
  rw [List.map_map]
  refine List.map_congr_left fun text _ => ?_
  rw [Function.comp_apply, shift, shift, shift, Nat.add_assoc]

/-- So many bytes hold all of the texts. -/
def Inside (size : Nat) (texts : List Span) : Prop :=
  ∀ text ∈ texts, text.start + text.length ≤ size

lemma inside_nil (size : Nat) : Inside size [] :=
  nofun

/-- Texts of bytes in front and of bytes behind lie in both together. -/
lemma Inside.append {size more : Nat} {texts texts' : List Span} (first : Inside size texts)
    (second : Inside more texts') : Inside (size + more) (texts ++ texts'.map (shift size)) := by
  refine List.forall_mem_append.2 ⟨?_, List.forall_mem_map.2 ?_⟩
  · intro text mem
    exact Nat.le_trans (first text mem) (Nat.le_add_right _ _)
  · intro text mem
    rw [start_shift, length_shift, Nat.add_assoc]
    exact Nat.add_le_add_left (second text mem) size

end Span

/-- The text of a string, behind its length byte. -/
def Value.payloadTexts : Value → List Span
  | .string s => [⟨1, s.utf8ByteSize⟩]
  | _ => []

/-- The text of a value that is a string, behind its tag. -/
def Value.texts (v : Value) : List Span :=
  v.payloadTexts.map (Span.shift 1)

/-- The text of a value lies in its payload. -/
lemma Value.payloadTexts_inside (v : Value) : Span.Inside v.payloadSize v.payloadTexts := by
  cases v with
  | string s =>
    intro text mem
    rw [List.mem_singleton.1 mem]
    exact Nat.le_refl _
  | _ => exact Span.inside_nil _

/-- The text of a value lies in its bytes. -/
lemma Value.texts_inside (v : Value) : Span.Inside v.encodedSize v.texts :=
  (Span.inside_nil 1).append v.payloadTexts_inside

namespace Element

mutual

/-- The texts of all strings of an element, keys included. -/
def texts : Element → List Span
  | value v => v.texts.map (Span.shift 1)
  | array items => (itemTexts items).map (Span.shift 2)
  | fields entries => (entryTexts entries).map (Span.shift 2)

/-- The texts of the items of an array. -/
def itemTexts : List Element → List Span
  | [] => []
  | e :: items => e.texts ++ (itemTexts items).map (Span.shift e.encodedSize)

/-- The texts of the entries of a map, in keys and elements. -/
def entryTexts : List (Value × Element) → List Span
  | [] => []
  | (key, e) :: entries =>
    key.texts ++ (e.texts ++ (entryTexts entries).map (Span.shift e.encodedSize)).map
      (Span.shift key.encodedSize)

end

mutual

/-- The texts of an element lie in its bytes. -/
lemma texts_inside : ∀ e : Element, Span.Inside e.encodedSize e.texts
  | value v => (Span.inside_nil 1).append v.texts_inside
  | array items => (Span.inside_nil 2).append (itemTexts_inside items)
  | fields entries => (Span.inside_nil 2).append (entryTexts_inside entries)

/-- The texts of items lie in their bytes. -/
lemma itemTexts_inside : ∀ items : List Element, Span.Inside (sizeOfItems items) (itemTexts items)
  | [] => Span.inside_nil 0
  | e :: items => (texts_inside e).append (itemTexts_inside items)

/-- The texts of entries lie in their bytes. -/
lemma entryTexts_inside :
    ∀ entries : List (Value × Element), Span.Inside (sizeOfEntries entries) (entryTexts entries)
  | [] => Span.inside_nil 0
  | (key, e) :: entries => by
    rw [sizeOfEntries, Nat.add_assoc]
    exact key.texts_inside.append ((texts_inside e).append (entryTexts_inside entries))

end

end Element

/-- The reason for which an encoding with some texts is refused if only so many bytes of it are
left. -/
inductive CutReport (texts : List Span) (k : Nat) : WireError → Prop
  | inText {text : Span} : text ∈ texts → text.CutAt k →
    CutReport texts k (.invalidStringLength text.length (k - text.start))
  | elsewhere : (∀ text ∈ texts, ¬ text.CutAt k) → CutReport texts k .unexpectedEnd

namespace CutReport

variable {texts more : List Span} {k : Nat} {cause : WireError}

/-- A report stays right beside more texts, if none of these is cut. -/
lemma append_right (report : CutReport texts k cause) (apart : ∀ text ∈ more, ¬ text.CutAt k) :
    CutReport (texts ++ more) k cause := by
  cases report with
  | inText mem cut => exact .inText (List.mem_append_left more mem) cut
  | elsewhere whole => exact .elsewhere (List.forall_mem_append.2 ⟨whole, apart⟩)

/-- A report stays right behind more texts, if none of these is cut. -/
lemma append_left (report : CutReport more k cause) (apart : ∀ text ∈ texts, ¬ text.CutAt k) :
    CutReport (texts ++ more) k cause := by
  cases report with
  | inText mem cut => exact .inText (List.mem_append_right texts mem) cut
  | elsewhere whole => exact .elsewhere (List.forall_mem_append.2 ⟨apart, whole⟩)

/-- A report moves with the texts. -/
lemma shift (report : CutReport texts k cause) (count : Nat) :
    CutReport (texts.map (Span.shift count)) (count + k) cause := by
  cases report with
  | @inText text mem cut =>
    have left : k - text.start = count + k - (text.shift count).start :=
      (Nat.add_sub_add_left count k text.start).symm
    rw [left]
    exact .inText (List.mem_map_of_mem mem) (Span.cutAt_shift_iff.2 cut)
  | elsewhere whole =>
    refine .elsewhere (List.forall_mem_map.2 fun text mem cut => ?_)
    exact whole text mem (Span.cutAt_shift_iff.1 cut)

end CutReport

/-! ## Readers of what is left -/

namespace Reader
open Piece

variable {α β : Type} {room inner : Nat}

/-- Where only the front of some bytes is left, no limit, and so much at most, a step fails for want
of the rest. -/
def Starves (room : Nat) (step : Reader α) (bytes : List UInt8) (texts : List Span) : Prop :=
  ∀ (c : Cursor) (k : Nat), k < bytes.length → c.rest = bytes.take k → c.limit = none →
    c.remaining ≤ room → ∃ cause stop, step.run c = .error cause stop ∧ CutReport texts k cause

/-- Where there are no bytes, there are no cuts. -/
lemma starves_nil (step : Reader α) : Starves room step [] [] := by
  intro c k short
  cases short

/-- A sequence of steps starves where each does on its own bytes. -/
lemma Starves.bind {step : Reader α} {next : α → Reader β} {Form : α → List UInt8 → Prop} {a : α}
    {bytes more : List UInt8} {texts texts' : List Span} (first : Starves room step bytes texts)
    (inside : Span.Inside bytes.length texts) (exact_step : Exact room step Form)
    (form : Form a bytes) (taken : room ≤ bytes.length + inner)
    (second : Starves inner (next a) more texts') :
    Starves room (step >>= next) (bytes ++ more)
      (texts ++ texts'.map (Span.shift bytes.length)) := by
  intro c k short here free left
  rw [List.length_append] at short
  -- The cut is in the bytes of the first step, or in those of the second.
  rcases Nat.lt_or_ge k bytes.length with early | late
  · rw [List.take_append_of_le_length (Nat.le_of_lt early)] at here
    obtain ⟨cause, stop, run, report⟩ := first c k early here free left
    refine ⟨cause, stop, ?_, report.append_right (List.forall_mem_map.2 ?_)⟩
    · rw [EStateM.run_bind, run]
    · intro text mem cut
      have below : bytes.length + text.start ≤ k := cut.1
      omega
  · obtain ⟨k, rfl⟩ := Nat.exists_eq_add_of_le late
    rw [List.take_length_add_append] at here
    obtain ⟨mid, run, here', free', left'⟩ :=
      exact_step.exists_run_bind form taken here free left next
    obtain ⟨cause, stop, run', report⟩ := second mid k (by omega) here' free' left'
    refine ⟨cause, stop, run.trans run', (report.shift bytes.length).append_left ?_⟩
    intro text mem cut
    have below := inside text mem
    have beyond := cut.2
    omega

/-- A step behind which nothing more is read. -/
lemma Starves.bind_nil {step : Reader α} {bytes : List UInt8} {texts : List Span}
    (first : Starves room step bytes texts) (next : α → Reader β) :
    Starves room (step >>= next) bytes texts := by
  intro c k short here free left
  obtain ⟨cause, stop, run, report⟩ := first c k short here free left
  refine ⟨cause, stop, ?_, report⟩
  rw [EStateM.run_bind, run]

/-- A function of what is read starves where the reading does. -/
lemma Starves.map {step : Reader α} {bytes : List UInt8} {texts : List Span}
    (starves : Starves room step bytes texts) (f : α → β) :
    Starves room (f <$> step) bytes texts := by
  rw [map_eq_pure_bind]
  exact starves.bind_nil _

/-- With too few bytes left, none are taken. -/
lemma taking_run_of_short {count : Nat} {cause : Cursor → WireError} {c : Cursor}
    (free : c.limit = none) (short : c.remaining < count) :
    (taking count cause).run c = .error (cause c) c := by
  rcases taking_run_cases count cause c with ⟨-, enough, -⟩ | ⟨l, limited, -⟩ | ⟨-, -, run⟩
  · exact absurd enough (Nat.not_le_of_lt short)
  · rw [free] at limited
    cases limited
  · exact run

/-- What is left of bytes that are cut is what stands in front of the cut. -/
lemma remaining_of_take {c : Cursor} {bytes : List UInt8} {k : Nat} (short : k < bytes.length)
    (here : c.rest = bytes.take k) : c.remaining = k := by
  rw [Cursor.remaining, here, List.length_take_of_le (Nat.le_of_lt short)]

/-- Bytes that are cut are reported as missing, by no text. -/
lemma starves_bytes {block : List UInt8} {count : Nat} (length : block.length = count) :
    Starves room (bytes count) block [] := by
  intro c k short here free left
  refine ⟨.unexpectedEnd, c, ?_, .elsewhere nofun⟩
  rw [bytes_eq]
  exact taking_run_of_short free (by rwa [remaining_of_take short here, ← length])

/-- A text that is cut is reported with its length and with what is left of it. -/
lemma starves_text {text : List UInt8} {count : Nat} (length : text.length = count) :
    Starves room (taking count fun c => .invalidStringLength count c.remaining) text
      [⟨0, text.length⟩] := by
  intro c k short here free left
  have remaining := remaining_of_take short here
  have cut : (⟨0, text.length⟩ : Span).CutAt k := ⟨Nat.zero_le k, by rwa [Nat.zero_add]⟩
  refine ⟨_, c, taking_run_of_short free (by rwa [remaining, ← length]), ?_⟩
  rw [remaining, ← length]
  exact .inText List.mem_cons_self cut

/-- A byte that is cut off is reported as missing. -/
lemma starves_byte (b : UInt8) : Starves room byte [b] [] := by
  have one : [b].length = 1 := rfl
  exact (starves_bytes one).bind_nil _

/-- Behind a byte, the cuts are those of what follows it. -/
lemma starves_byte_bind {b : UInt8} {next : UInt8 → Reader α} {more : List UInt8}
    {texts : List Span} (taken : room ≤ 1 + inner) (second : Starves inner (next b) more texts) :
    Starves room (byte >>= next) (b :: more) (texts.map (Span.shift 1)) :=
  (starves_byte b).bind (Span.inside_nil 1) exact_byte rfl taken second

/-- A string that is cut in front of its length byte misses a byte, and behind it a text. -/
lemma starves_string {s : String} (short : (Utf8.encode s).length ≤ Writer.maxLength) :
    Starves room string (UInt8.ofNat (Utf8.encode s).length :: Utf8.encode s)
      [⟨1, s.utf8ByteSize⟩] := by
  have size : (Utf8.encode s).length = (UInt8.ofNat (Utf8.encode s).length).toNat :=
    (UInt8.toNat_ofNat_of_lt (Nat.lt_succ_of_le short)).symm
  have behind : [(⟨1, s.utf8ByteSize⟩ : Span)]
      = [⟨0, (Utf8.encode s).length⟩].map (Span.shift 1) := by
    rw [← Utf8.length_encode]
    rfl
  rw [string_eq, behind]
  refine starves_byte_bind (Nat.le_add_left room 1) ?_
  exact (starves_text size).bind_nil _

/-- A payload that is cut is reported by its text, if it has one. -/
lemma starves_payload (v : Value) (sound : Sound v.payloadPieces) :
    Starves room (payload v.kind) (wires v.payloadPieces) v.payloadTexts := by
  cases v with
  | bool b => exact ((starves_byte _).bind_nil _).map Value.bool
  | string s =>
    rw [Value.payloadPieces, wires_cons, wires_cons, wires_nil, List.append_nil]
    exact (starves_string (fault?_textLength.1 (sound_cons.1 sound).1)).map Value.string
  | uint w n =>
    rw [Value.payloadPieces, wires_cons, wires_nil, List.append_nil]
    exact ((starves_bytes (BigEndian.length_encode w.bytes n.toNat)).bind_nil _).map (Value.uint w)
  | hash h =>
    rw [Value.payloadPieces, wires_cons, wires_nil, List.append_nil]
    exact ((starves_bytes h.length_eq).bind_nil _).map Value.hash

/-- A value that is cut is reported by its text, if it has one. -/
lemma starves_value (v : Value) (sound : Sound v.pieces) :
    Starves room value (wires v.pieces) v.texts := by
  refine starves_byte_bind (Nat.le_add_left room 1) ?_
  rw [Value.Kind.ofTag?_tag]
  exact starves_payload v (sound_cons.1 sound).2

/-- A reader of elements reports every cut of an element by the texts of that element. -/
def ReportsCuts (room : Nat) (step : Reader Element) : Prop :=
  ∀ e : Element, Sound e.pieces → e.DistinctKeys → Starves room step (wires e.pieces) e.texts

variable {step : Reader Element}

/-- A run of items that is cut is reported by the texts of the items. -/
lemma starves_items (exact_step : Exact room step Element.Spells) (reports : ReportsCuts room step)
    (items : List Element) (sound : Sound (Element.itemPieces items))
    (distinct : Element.ItemsDistinct items) :
    Starves room (times step items.length) (wires (Element.itemPieces items))
      (Element.itemTexts items) := by
  induction items with
  | nil => exact starves_nil _
  | cons e items ih =>
    obtain ⟨first, rest⟩ := sound_append.1 sound
    have inside := e.texts_inside
    have later := (ih rest distinct.2).map fun rest => e :: rest
    rw [← e.length_wires] at inside
    rw [Element.itemPieces, wires_append, Element.itemTexts, ← e.length_wires]
    exact (reports e first distinct.1).bind inside exact_step ⟨first, distinct.1, rfl⟩
      (Nat.le_add_left room _) later

/-- A run of entries that is cut is reported by the texts of keys and elements. -/
lemma starves_entries (exact_step : Exact room step Element.Spells)
    (reports : ReportsCuts room step) (mapped before : List (Value × Element))
    (sound : Sound (Element.entryPieces mapped)) (distinct : Element.EntriesDistinct mapped)
    (nodup : ((before ++ mapped).map Prod.fst).Nodup) :
    Starves room (entries step mapped.length before) (wires (Element.entryPieces mapped))
      (Element.entryTexts mapped) := by
  induction mapped generalizing before with
  | nil => exact starves_nil _
  | cons entry mapped ih =>
    obtain ⟨key, e⟩ := entry
    obtain ⟨soundKey, soundRest⟩ := sound_append.1 sound
    obtain ⟨soundFirst, soundRest⟩ := sound_append.1 soundRest
    -- The key is new, so the check lets the rest be read, where it is the one that starves.
    have fresh : ¬ (before.map Prod.fst).contains key := by
      intro repeated
      rw [List.map_append] at nodup
      exact (List.nodup_append.1 nodup).2.2 key (List.contains_iff_mem.1 repeated) key
        List.mem_cons_self rfl
    rw [List.append_cons] at nodup
    have later := ih (before ++ [(key, e)]) soundRest distinct.2 nodup
    have checked : Starves room
        (if (before.map Prod.fst).contains key then throw (.duplicateKey key)
          else entries step mapped.length (before ++ [(key, e)]))
        (wires (Element.entryPieces mapped)) (Element.entryTexts mapped) := by
      rw [if_neg fresh]
      exact later
    have inside := key.texts_inside
    have inside' := e.texts_inside
    rw [← key.length_wires] at inside
    rw [← e.length_wires] at inside'
    rw [Element.entryPieces, wires_append, wires_append, Element.entryTexts, List.length_cons,
      entries_succ, ← key.length_wires, ← e.length_wires]
    refine (starves_value key soundKey).bind inside exact_value ⟨soundKey, rfl⟩
      (Nat.le_add_left room _) ?_
    exact (reports e soundFirst distinct.1).bind inside' exact_step ⟨soundFirst, distinct.1, rfl⟩
      (Nat.le_add_left room _) checked

/-- Where nothing is left, the first byte is missing, and no text starts before it. -/
lemma starves_zero (b : UInt8) (next : UInt8 → Reader α) (more : List UInt8) (texts : List Span) :
    Starves 0 (byte >>= next) (b :: more) (texts.map (Span.shift 1)) := by
  intro c k short here free left
  have remaining := remaining_of_take short here
  obtain rfl : k = 0 := Nat.le_zero.1 (remaining ▸ left)
  refine ⟨.unexpectedEnd, c, ?_, .elsewhere (List.forall_mem_map.2 fun text mem cut => ?_)⟩
  · rw [EStateM.run_bind, byte, EStateM.run_bind, bytes_eq,
      taking_run_of_short free (Nat.lt_one_iff.2 remaining)]
  · exact Nat.ne_of_gt (Nat.add_pos_left Nat.one_pos _) (Nat.le_zero.1 cut.1)

/-- Whatever the depth: where it runs out, nothing is left. -/
lemma reportsCuts_elementWithin (depth : Nat) : ReportsCuts depth (elementWithin depth) := by
  -- The tag and the count stand before all texts of a collection.
  have two (texts : List Span) :
      texts.map (Span.shift 2) = (texts.map (Span.shift 1)).map (Span.shift 1) :=
    (Span.map_shift_map_shift 1 1 texts).symm
  induction depth with
  | zero =>
    intro e sound distinct
    cases e with
    | value v => exact starves_zero _ _ _ _
    | array items =>
      rw [Element.texts, two]
      exact starves_zero _ _ _ _
    | fields mapped =>
      rw [Element.texts, two]
      exact starves_zero _ _ _ _
  | succ depth ih =>
    intro e sound distinct
    have one : depth + 1 ≤ 1 + depth := Nat.le_of_eq (Nat.add_comm depth 1)
    rw [elementWithin_succ]
    cases e with
    | value v =>
      refine starves_byte_bind one ?_
      exact (starves_value v (sound_cons.1 sound).2).map Element.value
    | array items =>
      obtain ⟨soundCount, soundItems⟩ := sound_cons.1 (sound_cons.1 sound).2
      rw [Element.texts, two]
      refine starves_byte_bind one (starves_byte_bind (Nat.le_add_left depth 1) ?_)
      rw [toNat_ofNat_of_count soundCount]
      exact (starves_items (exact_elementWithin depth) ih items soundItems distinct).map
        Element.array
    | fields mapped =>
      obtain ⟨soundCount, soundEntries⟩ := sound_cons.1 (sound_cons.1 sound).2
      rw [Element.texts, two]
      refine starves_byte_bind one (starves_byte_bind (Nat.le_add_left depth 1) ?_)
      rw [toNat_ofNat_of_count soundCount]
      exact (starves_entries (exact_elementWithin depth) ih mapped [] soundEntries distinct.2
        distinct.1).map Element.fields

end Reader

namespace Element

variable {e : Element} {bytes : List UInt8}

/-- Every cut of an element's bytes is reported by the texts of the element. -/
lemma ofBytes_take (distinct : e.DistinctKeys) (written : e.toBytes = .ok bytes) {k : Nat}
    (short : k < bytes.length) :
    ∃ cause, ofBytes (bytes.take k) = .error cause ∧ CutReport e.texts k cause := by
  obtain ⟨sound, -, rfl⟩ := spells_iff.2 ⟨distinct, written⟩
  let c := Cursor.start ((Piece.wires e.pieces).take k) none
  obtain ⟨cause, stop, run, report⟩ :=
    Reader.reportsCuts_elementWithin c.remaining e sound distinct c k short rfl rfl (Nat.le_refl _)
  have whole : Reader.element.run c = .error cause stop := run
  refine ⟨cause, ?_, report⟩
  rw [ofBytes, whole]

/-- Bytes behind an element's are counted and refused. -/
lemma ofBytes_append (distinct : e.DistinctKeys) (written : e.toBytes = .ok bytes)
    {more : List UInt8} (some_more : more ≠ []) :
    ofBytes (bytes ++ more) = .error (.trailingBytes more.length) := by
  have spelled := spells_iff.2 ⟨distinct, written⟩
  obtain ⟨next, passes, rest⟩ :=
    Cursor.exists_passes (c := .start (bytes ++ more) none) rfl rfl
  have run := Reader.element_run_eq_ok_iff.2 ⟨bytes, spelled, passes⟩
  have left : next.remaining = more.length := congrArg List.length rest
  rw [ofBytes, run]
  show (if next.remaining = 0 then _ else _) = _
  rw [left, if_neg (mt List.eq_nil_of_length_eq_zero some_more)]

end Element

namespace Reader

/-- Whatever a reader finds from some place of a buffer, and every reason to fail but a want of
bytes, stays the same at the same place when bytes are put behind the buffer. So of the bytes of an
element, without repeated keys as all elements that are read, no front is read, but refused for a
want of bytes, and as a text that is too long just where the cut goes through a text; and with bytes
behind them, those are reported. -/
theorem verdicts_are_final :
    (∀ (buffer more : List UInt8) (limit : Option Nat) (p : Nat), p ≤ buffer.length →
      Lasts more (element.run (.ofBuffer buffer limit p))
        (element.run (.ofBuffer (buffer ++ more) limit p)) ∧
      Lasts more (value.run (.ofBuffer buffer limit p))
        (value.run (.ofBuffer (buffer ++ more) limit p))) ∧
    (∀ (e : Element) (bytes : List UInt8), e.DistinctKeys → e.toBytes = .ok bytes →
      (∀ k < bytes.length, ∃ cause,
        Element.ofBytes (bytes.take k) = .error cause ∧ CutReport e.texts k cause) ∧
      ∀ more ≠ [], Element.ofBytes (bytes ++ more) = .error (.trailingBytes more.length)) := by
  refine ⟨?_, ?_⟩
  · intro buffer more limit p inside
    have longer : Cursor.ofBuffer (buffer ++ more) limit p
        = (Cursor.ofBuffer buffer limit p).followedBy more := by
      rw [Cursor.ofBuffer, List.drop_append_of_le_length inside]
      rfl
    rw [longer]
    exact ⟨element_lasts _ more, value_lasts _ more⟩
  · intro e bytes distinct written
    refine ⟨fun k short => ?_, fun more some_more => ?_⟩
    · exact Element.ofBytes_take distinct written short
    · exact Element.ofBytes_append distinct written some_more

/-- A map from a text to an array that ends in a text, cut behind the first byte of that text. -/
theorem verdicts_are_final_in_a_text :
    let e : Element :=
      .fields [(.string "id", .array [.value (.uint .w8 7), .value (.string "ab")])]
    let bytes : List UInt8 := [2, 1, 1, 2, 105, 100, 1, 2, 0, 2, 7, 0, 1, 2, 97, 98]
    e.DistinctKeys ∧ e.toBytes = .ok bytes ∧ e.texts = [⟨4, 2⟩, ⟨14, 2⟩] ∧
    Element.ofBytes (bytes.take 15) = .error (.invalidStringLength 2 1) ∧
    CutReport e.texts 15 (.invalidStringLength 2 1) ∧
    Element.ofBytes (bytes ++ [9]) = .error (.trailingBytes 1) ∧
    element.run (.ofBuffer ([3, 0, 0, 2] ++ [9]) none 1)
      = .error (.invalidBool 2) ⟨[9], 4, none⟩ := by
  intro e bytes
  have distinct : e.DistinctKeys := ⟨by decide, ⟨trivial, trivial, trivial⟩, trivial⟩
  have written : e.toBytes = .ok bytes := by rfl
  have refused : Element.ofBytes (bytes.take 15) = .error (.invalidStringLength 2 1) := by cbv
  obtain ⟨cuts, longer⟩ := verdicts_are_final.2 e bytes distinct written
  refine ⟨distinct, written, rfl, refused, ?_, longer [9] (List.cons_ne_nil _ _), ?_⟩
  · obtain ⟨cause, refused', report⟩ := cuts 15 (by decide)
    cases refused.symm.trans refused'
    exact report
  · exact (verdicts_are_final.1 [3, 0, 0, 2] [9] none 1 (by decide)).1 id

end Reader

end AddressCodec

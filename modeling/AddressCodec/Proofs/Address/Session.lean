import AddressCodec.Address.Session
import AddressCodec.Proofs.Address.Formatting

/-!
# Sessions with an address

A step keeps the network and the key of an address, and puts other extra data in place if it is a
change (`Address.act_snd`). So an address is known, after any steps, from its network, its key and
the last change (`Address.after_eq`), and what a session shows at a step is what a new address would
show there (`Address.sessions_leave_no_trace`).
-/

namespace AddressCodec.Address

/-- The extra data that a change leaves behind; a look leaves what is there. -/
def Action.change? : Action → Option (Option Element)
  | .set extra => some extra
  | .attach e => some (some e)
  | .clear | .take => some none
  | .format | .toData | .toJson | .reparse | .compare _ | .compareText _ => none

/-- The extra data left by the last change among some actions, or what was there before them. -/
def carried (extra : Option Element) (actions : List Action) : Option Element :=
  (actions.filterMap Action.change?).getLast?.getD extra

/-- A new address, with extra data or without. -/
def fresh (publicKey : Bytes32) (network : Network) : Option Element → Address
  | none => plain publicKey network
  | some e => integrated publicKey network e

/-- The address that some actions lead to. -/
def after (a : Address) (actions : List Action) : Address :=
  actions.foldl (fun a action => (a.act action).2) a

variable {a : Address} {action : Action} {actions : List Action}

/-- An address with other extra data is a new one with the same key and network. -/
lemma setExtraData_eq_fresh (a : Address) (extra : Option Element) :
    a.setExtraData extra = fresh a.publicKey a.network extra := by
  cases extra <;> rfl

lemma fresh_network (publicKey : Bytes32) (network : Network) (extra : Option Element) :
    (fresh publicKey network extra).network = network := by
  cases extra <;> rfl

lemma fresh_publicKey (publicKey : Bytes32) (network : Network) (extra : Option Element) :
    (fresh publicKey network extra).publicKey = publicKey := by
  cases extra <;> rfl

lemma fresh_extraData (publicKey : Bytes32) (network : Network) (extra : Option Element) :
    (fresh publicKey network extra).extraData = extra := by
  cases extra <;> rfl

/-! ## One step -/

/-- An action leaves the extra data of its change, or what is there. -/
lemma act_snd (a : Address) (action : Action) :
    (a.act action).2 = a.setExtraData (action.change?.getD a.extraData) := by
  cases action <;> rfl

/-- The last action decides which extra data is carried, if it is a change. -/
lemma carried_append_singleton (extra : Option Element) (actions : List Action) (action : Action) :
    carried extra (actions ++ [action]) = action.change?.getD (carried extra actions) := by
  rw [carried, carried, List.filterMap_append, List.filterMap_cons, List.filterMap_nil]
  cases action.change? with
  | none => rw [List.append_nil, Option.getD_none]
  | some extra => rw [List.getLast?_append, List.getLast?_singleton, Option.some_or]; rfl

/-! ## Any number of steps -/

/-- The last action leads on from where those before it have led. -/
lemma after_append_singleton (a : Address) (actions : List Action) (action : Action) :
    a.after (actions ++ [action]) = ((a.after actions).act action).2 := by
  rw [after, List.foldl_concat]
  rfl

/-- The network and the key stay, and the extra data is that of the last change. -/
lemma after_eq (a : Address) (actions : List Action) :
    a.after actions = fresh a.publicKey a.network (carried a.extraData actions) := by
  induction actions using List.reverseRecOn with
  | nil => exact setExtraData_eq_fresh a a.extraData
  | append_singleton actions action ih =>
    rw [after_append_singleton, ih, act_snd, fresh_extraData, setExtraData_eq_fresh, fresh_network,
      fresh_publicKey, carried_append_singleton]

lemma length_session (a : Address) (actions : List Action) :
    (a.session actions).length = actions.length := by
  induction actions generalizing a with
  | nil => rfl
  | cons action actions ih => exact congrArg Nat.succ (ih _)

/-- A session goes on from the address that the actions so far have led to. -/
lemma session_append (a : Address) (before later : List Action) :
    a.session (before ++ later) = a.session before ++ (a.after before).session later := by
  induction before generalizing a with
  | nil => rfl
  | cons action before ih => exact congrArg ((a.act action) :: ·) (ih _)

/-- A step shows what a new address with the extra data left by the earlier ones would, and leads to
a new address with the extra data left by them and itself. -/
lemma getElem?_session (a : Address) (before later : List Action) (action : Action) :
    (a.session (before ++ action :: later))[before.length]? = some
      (((fresh a.publicKey a.network (carried a.extraData before)).act action).1,
        fresh a.publicKey a.network (carried a.extraData (before ++ [action]))) := by
  have found : (a.session (before ++ action :: later))[before.length]?
      = some ((a.after before).act action) := by
    rw [session_append, List.getElem?_append_right (a.length_session before).le, length_session,
      Nat.sub_self]
    rfl
  rw [found, ← after_eq, ← after_eq, after_append_singleton]

/-- A plain address has bytes and a text, from which it is read. -/
lemma exists_format_plain (publicKey : Bytes32) (network : Network) :
    (plain publicKey network).toData = .ok (publicKey.bytes ++ [0]) ∧
      ∃ text, (plain publicKey network).format = .ok text ∧
        parse text = .ok (plain publicKey network) := by
  have written : (plain publicKey network).toData = .ok (publicKey.bytes ++ [0]) := rfl
  obtain ⟨text, formatted⟩ := exists_format written
  exact ⟨written, text, formatted, parse_of_format_eq_ok nofun formatted⟩

/-- In a session from any address every step is shown. Behind each step, whether or not what it
looked at could be had, the network and the key are those of the start, and the extra data is that
of the last change up to there, or else of the start; the address is integrated exactly if it has
some. Taking shows what was there before. What else is shown, and the bytes and the text of the
address, are those of a new address with this network, this key and this extra data. So behind a
step that leaves no extra data, the address is written as one that never had any. -/
theorem sessions_leave_no_trace (a : Address) (actions : List Action) :
    (a.session actions).length = actions.length ∧
    ∀ before action later, actions = before ++ action :: later →
      ∃ answer next, (a.session actions)[before.length]? = some (answer, next) ∧
        next.network = a.network ∧ next.publicKey = a.publicKey ∧
        (next.isIntegrated ↔ ∃ e, next.extraData = some e) ∧
        next.extraData = carried a.extraData (before ++ [action]) ∧
        (action = .take → answer = .extra (carried a.extraData before)) ∧
        answer = ((fresh a.publicKey a.network (carried a.extraData before)).act action).1 ∧
        next.toData = (fresh a.publicKey a.network next.extraData).toData ∧
        next.format = (fresh a.publicKey a.network next.extraData).format ∧
        (action = .clear ∨ action = .take ∨ action = .set none →
          next.toData = .ok (a.publicKey.bytes ++ [0]) ∧
          (plain a.publicKey a.network).toData = .ok (a.publicKey.bytes ++ [0]) ∧
          ∃ text, next.format = .ok text ∧ (plain a.publicKey a.network).format = .ok text ∧
            parse text = .ok (plain a.publicKey a.network)) := by
  refine ⟨a.length_session actions, ?_⟩
  rintro before action later rfl
  refine ⟨_, _, getElem?_session a before later action, ?_⟩
  -- The last action empties the extra data, whatever the ones before it did.
  have emptied (ends : action = .clear ∨ action = .take ∨ action = .set none) :
      carried a.extraData (before ++ [action]) = none := by
    rw [carried_append_singleton]
    obtain rfl | rfl | rfl := ends <;> rfl
  rw [fresh_extraData]
  refine ⟨fresh_network _ _ _, fresh_publicKey _ _ _, ?_, rfl, ?_, rfl, rfl, rfl, ?_⟩
  · rw [isIntegrated, fresh_extraData]
    exact Option.isSome_iff_exists
  · rintro rfl
    exact congrArg Answer.extra (fresh_extraData _ _ _)
  · intro ends
    rw [emptied ends]
    obtain ⟨written, text, formatted, parsed⟩ := exists_format_plain a.publicKey a.network
    exact ⟨written, written, text, formatted, formatted, parsed⟩

/-- A text that could not be written leaves the extra data to be taken, and other data put in place
of it leaves nothing behind. -/
theorem sessions_leave_no_trace_past_a_failure :
    let key : Bytes32 := ⟨List.replicate 32 7, rfl⟩
    let long := Element.value (.string (String.ofList (List.replicate 256 'a')))
    let shown : List (Answer × Address) := (integrated key .testnet (.array [])).session
      [.attach long, .format, .take, .set (some (.fields [])), .toData, .clear]
    (∃ next : Address, shown[1]? = some (.text (.error (.wire (.stringTooLong 256))), next) ∧
      next.extraData = some long) ∧
    (∃ next : Address, shown[2]? = some (.extra (some long), next) ∧ next.isIntegrated = false) ∧
    (∃ next : Address, shown[4]? = some (.data (.ok (key.bytes ++ [1, 2, 0])), next) ∧
      next.extraData = some (.fields [])) ∧
    ∃ (answer : Answer) (next : Address) (text : String), shown[5]? = some (answer, next) ∧
      next.toData = .ok (key.bytes ++ [0]) ∧ next.format = .ok text ∧
      parse text = .ok (plain key .testnet) := by
  intro key long shown
  obtain ⟨-, steps⟩ := sessions_leave_no_trace (integrated key .testnet (.array []))
    [.attach long, .format, .take, .set (some (.fields [])), .toData, .clear]
  have failed : (integrated key .testnet long).format = .error (.wire (.stringTooLong 256)) := by
    have broken : long.violations = [.stringTooLong 256] := by decide +kernel
    exact format_of_toData_error (toData_of_violations broken)
  refine ⟨?_, ?_, ?_, ?_⟩
  · obtain ⟨answer, next, here, -, -, -, extra, -, look, -⟩ := steps [.attach long] .format _ rfl
    rw [look] at here
    exact ⟨next, here.trans (congrArg (fun t => some (Answer.text t, next)) failed), extra⟩
  · obtain ⟨answer, next, here, -, -, marked, extra, taken, -⟩ :=
      steps [.attach long, .format] .take _ rfl
    rw [taken rfl] at here
    refine ⟨next, here, Bool.eq_false_iff.2 ?_⟩
    intro integrated
    obtain ⟨e, present⟩ := marked.1 integrated
    cases extra.symm.trans present
  · obtain ⟨answer, next, here, -, -, -, extra, -, look, -⟩ :=
      steps [.attach long, .format, .take, .set (some (.fields []))] .toData _ rfl
    rw [look] at here
    exact ⟨next, here.trans (congrArg (fun d => some (Answer.data d, next)) (by rfl)), extra⟩
  · obtain ⟨answer, next, here, -, -, -, -, -, -, -, -, emptied⟩ :=
      steps [.attach long, .format, .take, .set (some (.fields [])), .toData] .clear _ rfl
    obtain ⟨written, -, text, formatted, -, parsed⟩ := emptied (.inl rfl)
    exact ⟨answer, next, text, here, written, formatted, parsed⟩

end AddressCodec.Address

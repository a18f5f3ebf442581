import PhpNsq.Subscriber.Settlement

/-!
# Messages that the callback settles

The methods `finish` and `requeue` of `NsqMessage` write their command at once, and
`process_business_message` writes its own when the callback is back. Neither knows of the other:
nothing is noted for the message.

A message that is processed is settled by the callback's own commands and, with `auto_finish`, by one
more (`countP_settles`). So it is settled at most once exactly when one of the two
leaves it alone (`settledOnce_iff`).
-/

set_option autoImplicit false

namespace PhpNsq

open Foundations

namespace UserAction

/-- The id that a method is given. -/
def messageId : UserAction → Bytes
  | .touch messageId => messageId
  | .requeue messageId _ => messageId
  | .finish messageId => messageId

/-- `finish` and `requeue` settle a message. -/
def settles : UserAction → Bool
  | .touch _ => false
  | .requeue _ _ => true
  | .finish _ => true

end UserAction

/-- The line of `FIN` for an id, or a line of `REQ` for it. -/
def settlesId (id line : Bytes) : Bool :=
  line == ascii "FIN " ++ cString id ++ newLine ||
    (ascii "REQ " ++ cString id ++ ascii " ").isPrefixOf line

/-- A settlement of an id is written to the connection. -/
def Effect.settles (id : Bytes) : Effect → Bool
  | .buffered _ line => settlesId id line
  | .direct _ line => settlesId id line
  | _ => false

/-- **At most one settlement** of the message is written, and none by the extension after the
callback has settled it. -/
structure SettledOnce (id : Bytes) (run : CallbackRun) (effects : List Effect) : Prop where
  once : effects.countP (Effect.settles id) ≤ 1
  respects : (∃ action ∈ run.actions, action.settles = true) →
    ∀ line, .buffered .extension line ∈ effects → settlesId id line = false

/-! ## Lines -/

section Lines

variable (id : Bytes)

theorem settlesId_finish : settlesId id (ascii "FIN " ++ cString id ++ newLine) = true := by
  simp [settlesId]

theorem settlesId_requeue (rest : Bytes) :
    settlesId id (ascii "REQ " ++ cString id ++ ascii " " ++ rest) = true := by
  simp [settlesId]

/-- A touch is no settlement. -/
theorem settlesId_touch (rest : Bytes) : settlesId id (ascii "TOUCH " ++ rest) = false := by
  rw [settlesId, Bool.or_eq_false_iff]
  constructor
  · apply beq_false_of_ne
    intro same
    have first : some (84 : UInt8) = some 70 := congrArg List.head? same
    exact absurd first (by decide)
  · apply Bool.eq_false_of_not_eq_true
    intro front
    obtain ⟨behind, same⟩ := List.isPrefixOf_iff_prefix.mp front
    have first : some (82 : UInt8) = some 84 := congrArg List.head? same
    exact absurd first (by decide)

end Lines

/-! ## What is written -/

/-- A method writes a settlement if it is one. -/
theorem UserAction.settles_effect {action : UserAction} {effect : Effect}
    (wrote : action.effect = some effect) :
    effect.settles action.messageId = action.settles := by
  cases action with
  | touch messageId =>
      obtain ⟨line, printed, rfl⟩ := Option.map_eq_some_iff.mp wrote
      obtain ⟨-, rfl⟩ := sprintf_eq_some.mp printed
      rw [List.append_assoc]
      exact settlesId_touch _ _
  | requeue messageId timeMs =>
      obtain ⟨line, printed, rfl⟩ := Option.map_eq_some_iff.mp wrote
      obtain ⟨-, rfl⟩ := sprintf_eq_some.mp printed
      rw [List.append_assoc]
      exact settlesId_requeue _ _
  | finish messageId =>
      obtain ⟨line, printed, rfl⟩ := Option.map_eq_some_iff.mp wrote
      obtain ⟨-, rfl⟩ := sprintf_eq_some.mp printed
      exact settlesId_finish _

/-- The line of a method fits its buffer when the id has the length of one. -/
theorem UserAction.exists_effect {action : UserAction} (sixteen : action.messageId.length ≤ 16) :
    ∃ effect, action.effect = some effect := by
  have short := (length_cString_le action.messageId).trans sixteen
  cases action with
  | touch messageId => exact ⟨_, congrArg (Option.map _) (nsqTouch_eq short)⟩
  | requeue messageId timeMs => exact ⟨_, congrArg (Option.map _) (nsqRequeue_eq short _)⟩
  | finish messageId => exact ⟨_, congrArg (Option.map _) (nsqFinish_eq short)⟩

/-- What a callback writes for one id settles it as often as it called the methods. -/
theorem countP_settles_issued {id : Bytes} {actions : List UserAction} {issued : List Effect}
    (on_id : ∀ action ∈ actions, action.messageId = id)
    (wrote : actions.mapM UserAction.effect = some issued) :
    issued.countP (Effect.settles id) = actions.countP UserAction.settles := by
  induction actions generalizing issued with
  | nil =>
      obtain rfl := Option.some.inj wrote
      rfl
  | cons action actions ih =>
      obtain ⟨first, rest, one, others, rfl⟩ := mapM_effect_cons wrote
      have here := UserAction.settles_effect one
      rw [on_id action (List.mem_cons_self ..)] at here
      rw [List.countP_cons, List.countP_cons, here,
        ih (fun other member => on_id other (List.mem_cons_of_mem _ member)) others]

/-- **The extension's command settles the message.** -/
theorem settlesId_settlement {msg : PendingMessage} {id : Bytes}
    (terminated : msg.messageId = id ++ [0]) (sixteen : id.length = 16) (callbackSuccess : Bool) :
    settlesId id (settlement msg callbackSuccess) = true := by
  have name : cString msg.messageId = cString id := by rw [terminated, cString_append_zero]
  have short := length_cString_le id
  rw [settlement_of_name (by rw [name]; omega), name]
  cases callbackSuccess with
  | true => exact settlesId_finish id
  | false =>
      rw [settlementText, if_neg (by simp), List.append_assoc]
      exact settlesId_requeue id _

/-! ## One settlement or two -/

section Processing

variable {msg : PendingMessage} {id : Bytes} {run : CallbackRun} {exception : Bool}

/-- What is written for a message: what the callback wrote, and the settlement with
`auto_finish`. -/
theorem processBusinessMessage_issued {issued : List Effect}
    (wrote : run.actions.mapM UserAction.effect = some issued) :
    ∃ left, processBusinessMessage run exception msg = some
      (.called msg.object :: issued ++ (if msg.autoFinish then [.buffered .extension
        (settlement msg (run.success && !run.exception exception))] else []), left) := by
  simp only [processBusinessMessage, wrote]
  exact ⟨_, rfl⟩

/-- **How often a message is settled**: by each call of `finish` and `requeue`, and by the
extension with `auto_finish`. -/
theorem countP_settles {issued settled : List Effect} {line : Bytes}
    (callback : issued.countP (Effect.settles id) = run.actions.countP UserAction.settles)
    (automatic : settled = if msg.autoFinish then [.buffered .extension line] else [])
    (settles : settlesId id line = true) :
    (.called msg.object :: issued ++ settled).countP (Effect.settles id) =
      run.actions.countP UserAction.settles + if msg.autoFinish then 1 else 0 := by
  rw [automatic, List.countP_append, List.countP_cons, callback]
  cases msg.autoFinish with
  | true => simp [Effect.settles, settles]
  | false => simp [Effect.settles]

/-- **A message is settled at most once** exactly when not both the callback and `auto_finish`
settle it. -/
theorem settledOnce_iff (terminated : msg.messageId = id ++ [0]) (sixteen : id.length = 16)
    (on_id : ∀ action ∈ run.actions, action.messageId = id)
    (at_most : run.actions.countP UserAction.settles ≤ 1) (exception : Bool) :
    ∃ effects left, processBusinessMessage run exception msg = some (effects, left) ∧
      (SettledOnce id run effects ↔
        ¬ (msg.autoFinish = true ∧ ∃ action ∈ run.actions, action.settles = true)) := by
  have fits : run.Fits := by
    intro action member
    rw [ne_eq, Option.eq_none_iff_forall_ne_some, not_forall]
    have short : action.messageId.length ≤ 16 := by rw [on_id action member, sixteen]
    obtain ⟨effect, wrote⟩ := UserAction.exists_effect short
    exact ⟨effect, not_not.mpr wrote⟩
  obtain ⟨issued, wrote⟩ := fits.mapM
  obtain ⟨left, processed⟩ : ∃ left, processBusinessMessage run exception msg = some (_, left) :=
    processBusinessMessage_issued wrote
  refine ⟨_, left, processed, ?_⟩
  have count : (.called msg.object :: issued ++ _ : List Effect).countP (Effect.settles id) = _ :=
    countP_settles (countP_settles_issued on_id wrote) rfl
      (settlesId_settlement terminated sixteen (run.success && !run.exception exception))
  constructor
  · rintro ⟨once, -⟩ ⟨automatic, callback⟩
    have called := List.countP_pos_iff.mpr callback
    rw [count, if_pos automatic] at once
    omega
  · intro apart
    refine ⟨?_, ?_⟩
    · rw [count]
      by_cases automatic : msg.autoFinish = true
      · have silent : run.actions.countP UserAction.settles = 0 := by
          rw [List.countP_eq_zero]
          intro action member settles
          exact apart ⟨automatic, action, member, settles⟩
        rw [silent, if_pos automatic]
      · rw [if_neg automatic]
        exact at_most
    · intro callback line member
      have manual : ¬ msg.autoFinish = true := fun automatic => apart ⟨automatic, callback⟩
      rw [if_neg manual, List.append_nil] at member
      -- the effects of the callback are the user's
      rcases List.mem_cons.mp member with same | issued_here
      · cases same
      · exact absurd (byUser_of_mapM wrote _ issued_here) not_false

end Processing

/-- The entry of a message with `auto_finish`. -/
def autoFinished : PendingMessage := ⟨ascii "0123456789abcdef" ++ [0], [0], 0, 1, 1, 0, true⟩

/-- A callback that finishes its message. -/
def finishing : CallbackRun := .returned [.finish (ascii "0123456789abcdef")]

/-- Without `auto_finish` the callback's settlement is the only one. -/
theorem settledOnce_manual :
    ∃ effects left, processBusinessMessage finishing false { autoFinished with autoFinish := false } =
        some (effects, left) ∧
      SettledOnce (ascii "0123456789abcdef") finishing effects := by
  have on_id : ∀ action ∈ finishing.actions, action.messageId = ascii "0123456789abcdef" := by
    decide
  have terminated : { autoFinished with autoFinish := false }.messageId =
      ascii "0123456789abcdef" ++ [0] := rfl
  obtain ⟨effects, left, processed, iff⟩ := settledOnce_iff terminated rfl on_id (by decide) false
  refine ⟨effects, left, processed, iff.mpr ?_⟩
  rintro ⟨automatic, -⟩
  cases automatic

/-- **With `auto_finish`, a message that the callback finishes is finished twice.** -/
theorem not_settledOnce_finishing :
    ¬ ∀ effects left, processBusinessMessage finishing false autoFinished = some (effects, left) →
      SettledOnce (ascii "0123456789abcdef") finishing effects := by
  intro always
  have processed : processBusinessMessage finishing false autoFinished = some
      ([.called autoFinished.object,
        .buffered .user (ascii "FIN 0123456789abcdef\n"),
        .buffered .extension (ascii "FIN 0123456789abcdef\n")], false) := rfl
  have once := (always _ _ processed).once
  exact absurd once (by decide)

end PhpNsq

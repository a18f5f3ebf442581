import PhpNsq.Nsq.Lookup

/-!
# The lookups of Nsq::subscribe

`subscribe` repeats its lookup as long as the array of producers is empty, and tells everything else
apart by the text that it got. So an object that libevent refuses is a topic that does not exist to
it, and a server that is not available is a response without a body; a request that ended without a
response it does not survive (`subscribe_looks_up`).

The event base, the connection and the rest of a lookup are not freed, so every repetition leaves
seven objects behind.
-/

set_option autoImplicit false

namespace PhpNsq

open Foundations

/-- `subscribe` from `lookup` up to its workers, or up to what a lookup runs into. -/
structure SubscribeRun where
  result : CallResult
  fault : Option LookupFault
  ops : List (BlockOp (ℕ × LookupObject))
  stderr : List Bytes

/-- The loop at `lookup`, from the lookup with the number `call` on. -/
def subscribeRun (phpJsonDecode : Bytes → JsonDecoded) (self : Nsq) (address topic : Bytes)
    (config : SubscribeConfig) (call : ℕ) : List Libevent → SubscribeRun
  | [] => ⟨subscribeLookup self address topic config [], none, [], []⟩
  | l :: libevents =>
      let looked := lookup call address topic l
      match looked.outcome.text with
      | .error fault =>
          ⟨subscribeLookup self address topic config [], some fault, looked.ops, looked.stderr⟩
      | .ok lookupdReStr =>
          let answer := lookupAnswer phpJsonDecode lookupdReStr
          let ops := looked.ops ++ answerOps call looked.outcome answer
          match answer with
          | .producers [] =>
              let again := subscribeRun phpJsonDecode self address topic config (call + 1) libevents
              { result := { again.result with
                  effects := .lookup address topic :: .sleep 10 :: again.result.effects }
                fault := again.fault
                ops := ops ++ again.ops
                stderr := looked.stderr ++ again.stderr }
          | answer => ⟨subscribeLookup self address topic config [answer], none, ops, looked.stderr⟩

section Loop

variable {phpJsonDecode : Bytes → JsonDecoded} {self : Nsq} {address topic : Bytes}
  {config : SubscribeConfig} {call : ℕ} {l : Libevent} {libevents : List Libevent}

/-- The URL fits. -/
theorem sprintf_lookupUrl (room : (BufferCall.lookup address topic).Room) :
    sprintf urlBuffer (lookupUrl address topic) = some (lookupUrl address topic) := by
  refine sprintf_eq_some.mpr ⟨?_, rfl⟩
  rw [length_lookupUrl]
  simp only [urlBuffer, sizeofPointer]
  change (cString address).length + (cString topic).length ≤ if HasScheme address then 129 else 122
    at room
  split
  · next scheme =>
      rw [if_pos scheme] at room
      omega
  · next scheme =>
      rw [if_neg scheme] at room
      omega

/-- **What a lookup comes to**, when the texts of `request` are those of objects without
producers. -/
theorem lookup_verdict (failures : ∀ failure, phpJsonDecode (RequestFailure.msg failure) = .array none)
    (room : (BufferCall.lookup address topic).Room) (call : ℕ) (l : Libevent) :
    (lookup call address topic l).outcome.text.map (lookupAnswer phpJsonDecode) =
      l.verdict phpJsonDecode := by
  have looked : (lookup call address topic l).outcome =
      (request call (lookupUrl address topic) l).outcome := by
    rw [lookup, sprintf_lookupUrl room]
  rw [looked, Libevent.verdict]
  split
  · next refuses =>
      obtain ⟨done, rest, failure, -, -, outcome⟩ :=
        request_of_refuses call refuses (lookupUrl address topic)
      have spoken : failure.msg ≠ [] := by cases failure <;> decide
      rw [outcome]
      change Except.ok (lookupAnswer phpJsonDecode failure.msg) = _
      rw [lookupAnswer, if_neg spoken, failures]
  · next accepts =>
      rw [(request_of_accepts call accepts _).2, dispatchRequest_outcome, Libevent.response]
      cases l.callbacks.findSome? LoopCallback.remoteRsp with
      | none => rfl
      | some remoteRsp => cases remoteRsp <;> rfl

/-- Behind lookups that are repeated comes one with a property. -/
def ComesTo (phpJsonDecode : Bytes → JsonDecoded) (ends : Libevent → Prop)
    (libevents : List Libevent) : Prop :=
  ∃ before l after, libevents = before ++ l :: after ∧
    (∀ repeated ∈ before, repeated.Lists phpJsonDecode []) ∧ ends l

theorem not_comesTo_nil (ends : Libevent → Prop) : ¬ ComesTo phpJsonDecode ends [] := by
  rintro ⟨before, l, after, split, -⟩
  exact List.append_ne_nil_of_right_ne_nil before (List.cons_ne_nil l after) split.symm

theorem comesTo_cons (ends : Libevent → Prop) : ComesTo phpJsonDecode ends (l :: libevents) ↔
    ends l ∨ (l.Lists phpJsonDecode [] ∧ ComesTo phpJsonDecode ends libevents) := by
  constructor
  · rintro ⟨before, last, after, split, repeated, ended⟩
    cases before with
    | nil =>
        obtain ⟨rfl, -⟩ := List.cons.inj split
        exact .inl ended
    | cons first before =>
        obtain ⟨rfl, rfl⟩ := List.cons.inj split
        obtain ⟨here, there⟩ := List.forall_mem_cons.mp repeated
        exact .inr ⟨here, before, last, after, rfl, there, ended⟩
  · rintro (ended | ⟨here, before, last, after, rfl, there, ended⟩)
    · exact ⟨[], l, libevents, rfl, List.forall_mem_nil _, ended⟩
    · exact ⟨l :: before, last, after, rfl, List.forall_mem_cons.mpr ⟨here, there⟩, ended⟩

/-- The heap behind a text. -/
def answeredOps (call : ℕ) (address topic : Bytes) (l : Libevent) (answer : LookupAnswer) :
    List (BlockOp (ℕ × LookupObject)) :=
  (lookup call address topic l).ops ++ answerOps call (lookup call address topic l).outcome answer

theorem answeredOps_pointers (call : ℕ) (address topic : Bytes) (l : Libevent)
    (answer : LookupAnswer) :
    ∀ op ∈ answeredOps call address topic l answer, op.pointer.1 = call := by
  have decoded : ∀ op ∈ decodeOps call answer, op.pointer.1 = call := by
    cases answer <;> simp [decodeOps, BlockOp.pointer]
  refine List.forall_mem_append.mpr
    ⟨fun op listed => (lookup_pointers call address topic op listed).1, ?_⟩
  cases (lookup call address topic l).outcome with
  | literal failure => exact decoded
  | faulted fault => exact decoded
  | copied text => exact List.forall_mem_cons.mpr ⟨rfl, decoded⟩

/-- A lookup works behind the earlier ones as it does alone. -/
theorem performAll_behind {ledger made : Ledger (ℕ × LookupObject)}
    {ops : List (BlockOp (ℕ × LookupObject))} (earlier : ∀ pointer ∈ ledger.owned, pointer.1 < call)
    (own : ∀ op ∈ ops, op.pointer.1 = call) (performed : Ledger.start.performAll ops = some made) :
    ∃ next, ledger.performAll ops = some next ∧
      next.owned.card + next.lost =
        made.owned.card + made.lost + (ledger.owned.card + ledger.lost) ∧
      ∀ pointer ∈ next.owned, pointer.1 < call + 1 := by
  have mine : ∀ pointer ∈ made.owned, pointer.1 = call := by
    intro pointer member
    rcases Ledger.owned_of_performAll performed pointer member with before | ⟨op, listed, rfl⟩
    · exact absurd before (Finset.notMem_empty pointer)
    · exact own op listed
  have disjoint : Disjoint made.owned ledger.owned :=
    Finset.disjoint_left.mpr fun pointer here there =>
      absurd (mine pointer here) (earlier pointer there).ne
  refine ⟨made.frame ledger.owned ledger.lost, ?_, ?_, ?_⟩
  · rw [Ledger.performAll_of_apart, performed, Option.map_some]
    exact fun op listed member => absurd (own op listed) (earlier op.pointer member).ne
  · change (made.owned ∪ ledger.owned).card + (made.lost + ledger.lost) = _
    rw [Finset.card_union_of_disjoint disjoint]
    omega
  · intro pointer member
    rcases Finset.mem_union.mp member with here | there
    · exact (mine pointer here).trans_lt (Nat.lt_succ_self call)
    · exact Nat.lt_succ_of_lt (earlier pointer there)

variable (failures : ∀ failure, phpJsonDecode (RequestFailure.msg failure) = .array none)
  (room : (BufferCall.lookup address topic).Room)

include failures room

/-- A lookup that `subscribe` does not survive. -/
theorem subscribeRun_of_error {fault : LookupFault} (verdict : l.verdict phpJsonDecode = .error fault) :
    subscribeRun phpJsonDecode self address topic config call (l :: libevents) =
      ⟨subscribeLookup self address topic config [], some fault, (lookup call address topic l).ops,
        (lookup call address topic l).stderr⟩ := by
  rw [← lookup_verdict failures room call] at verdict
  cases text : (lookup call address topic l).outcome.text with
  | ok lookupdReStr =>
      rw [text] at verdict
      cases verdict
  | error other =>
      rw [text] at verdict
      cases verdict
      rw [subscribeRun, text]

/-- The text of another one. -/
theorem text_of_verdict {answer : LookupAnswer} (verdict : l.verdict phpJsonDecode = .ok answer)
    (call : ℕ) : ∃ lookupdReStr, (lookup call address topic l).outcome.text = .ok lookupdReStr ∧
      lookupAnswer phpJsonDecode lookupdReStr = answer := by
  rw [← lookup_verdict failures room call] at verdict
  cases text : (lookup call address topic l).outcome.text with
  | error other =>
      rw [text] at verdict
      cases verdict
  | ok lookupdReStr =>
      rw [text] at verdict
      exact ⟨lookupdReStr, rfl, Except.ok.inj verdict⟩

/-- A lookup without producers is repeated. -/
theorem subscribeRun_of_repeated (verdict : l.verdict phpJsonDecode = .ok (.producers [])) :
    let again := subscribeRun phpJsonDecode self address topic config (call + 1) libevents
    subscribeRun phpJsonDecode self address topic config call (l :: libevents) =
      { result := { again.result with
          effects := .lookup address topic :: .sleep 10 :: again.result.effects }
        fault := again.fault
        ops := answeredOps call address topic l (.producers []) ++ again.ops
        stderr := (lookup call address topic l).stderr ++ again.stderr } := by
  obtain ⟨lookupdReStr, text, answer⟩ : ∃ lookupdReStr,
      (lookup call address topic l).outcome.text = .ok lookupdReStr ∧ _ :=
    text_of_verdict failures room verdict call
  simp only [subscribeRun, text, answer, answeredOps]

/-- At any other answer the loop ends. -/
theorem subscribeRun_of_ok {answer : LookupAnswer} (verdict : l.verdict phpJsonDecode = .ok answer)
    (ends : answer ≠ .producers []) :
    subscribeRun phpJsonDecode self address topic config call (l :: libevents) =
      ⟨subscribeLookup self address topic config [answer], none,
        answeredOps call address topic l answer, (lookup call address topic l).stderr⟩ := by
  obtain ⟨lookupdReStr, text, same⟩ : ∃ lookupdReStr,
      (lookup call address topic l).outcome.text = .ok lookupdReStr ∧ _ :=
    text_of_verdict failures room verdict call
  simp only [subscribeRun, text, same, answeredOps]

/-- **What the loop ends with** comes from the first lookup that is not repeated. -/
theorem subscribeRun_iff (shows : SubscribeRun → Prop) {ends : Libevent → Prop}
    (waiting : ¬ shows ⟨subscribeLookup self address topic config [], none, [], []⟩)
    (repeated : ∀ l run ops stderr, l.verdict phpJsonDecode = .ok (.producers []) → ¬ ends l ∧
      (shows ⟨{ run.result with
          effects := .lookup address topic :: .sleep 10 :: run.result.effects }, run.fault, ops,
          stderr⟩ ↔ shows run))
    (failed : ∀ l fault ops stderr, l.verdict phpJsonDecode = .error fault →
      (shows ⟨subscribeLookup self address topic config [], some fault, ops, stderr⟩ ↔ ends l))
    (answered : ∀ l answer ops stderr, l.verdict phpJsonDecode = .ok answer →
      answer ≠ .producers [] →
      (shows ⟨subscribeLookup self address topic config [answer], none, ops, stderr⟩ ↔ ends l))
    (call : ℕ) (libevents : List Libevent) :
    shows (subscribeRun phpJsonDecode self address topic config call libevents) ↔
      ComesTo phpJsonDecode ends libevents := by
  induction libevents generalizing call with
  | nil => exact iff_of_false waiting (not_comesTo_nil ends)
  | cons l libevents ih =>
      rw [comesTo_cons, ← Libevent.verdict_producers]
      cases verdict : l.verdict phpJsonDecode with
      | error fault =>
          rw [subscribeRun_of_error failures room verdict, failed l fault _ _ verdict, or_iff_left]
          rintro ⟨⟨⟩, -⟩
      | ok answer =>
          by_cases again : answer = .producers []
          · subst again
            rw [subscribeRun_of_repeated failures room verdict]
            obtain ⟨goes_on, same⟩ := repeated l
              (subscribeRun phpJsonDecode self address topic config (call + 1) libevents)
              (answeredOps call address topic l (.producers []) ++ _) (_ ++ _) verdict
            rw [or_iff_right goes_on, and_iff_right rfl, ← ih (call + 1)]
            exact same
          · rw [subscribeRun_of_ok failures room verdict again, answered l answer _ _ verdict again,
              or_iff_left fun both => again (Except.ok.inj both.1)]

/-- The exceptions that the loop raises. -/
theorem throws_subscribeRun (code : PhpNsqErrorCode) (libevents : List Libevent) :
    throwException code ∈
        (subscribeRun phpJsonDecode self address topic config call libevents).result.effects ↔
      ComesTo phpJsonDecode (fun l =>
        (code = .lookupdServerNotAvailable ∧ l.verdict phpJsonDecode = .ok .empty) ∨
          (code = .topicNotExists ∧ l.verdict phpJsonDecode = .ok .noProducers)) libevents := by
  apply subscribeRun_iff failures room fun run => throwException code ∈ run.result.effects
  · simp [subscribeLookup, throwException]
  · intro l run ops stderr verdict
    rw [verdict]
    simp [throwException]
  · intro l fault ops stderr verdict
    rw [verdict]
    simp [subscribeLookup, throwException]
  · intro l answer ops stderr verdict last
    rw [verdict]
    cases answer with
    | empty => cases code <;> simp [subscribeLookup, throwException]
    | malformed => simp [subscribeLookup, throwException]
    | noProducers => cases code <;> simp [subscribeLookup, throwException]
    | producers list =>
        cases list with
        | nil => exact absurd rfl last
        | cons first others =>
            rw [subscribeLookup]
            split
            · simp [throwException]
            · simp [throwException]

/-- What a lookup runs into. -/
theorem fault_subscribeRun (fault : LookupFault) (libevents : List Libevent) :
    (subscribeRun phpJsonDecode self address topic config call libevents).fault = some fault ↔
      ComesTo phpJsonDecode (fun l => l.verdict phpJsonDecode = .error fault) libevents := by
  apply subscribeRun_iff failures room fun run => run.fault = some fault
  · rintro ⟨⟩
  · intro l run ops stderr verdict
    rw [verdict]
    exact ⟨by rintro ⟨⟩, Iff.rfl⟩
  · intro l other ops stderr verdict
    simp [verdict]
  · intro l answer ops stderr verdict last
    simp [verdict]

/-- The loop comes to the workers. -/
theorem starting_subscribeRun (named : config.channel ≠ none) (libevents : List Libevent) :
    (subscribeRun phpJsonDecode self address topic config call libevents).result.ending = .starting ↔
      ComesTo phpJsonDecode (fun l => ∃ first others,
        l.verdict phpJsonDecode = .ok (.producers (first :: others))) libevents := by
  apply subscribeRun_iff failures room fun run => run.result.ending = .starting
  · rintro ⟨⟩
  · intro l run ops stderr verdict
    simp [verdict]
  · intro l fault ops stderr verdict
    simp [verdict, subscribeLookup]
  · intro l answer ops stderr verdict last
    rw [verdict]
    cases answer with
    | empty => simp [subscribeLookup]
    | malformed => simp [subscribeLookup]
    | noProducers => simp [subscribeLookup]
    | producers list =>
        cases list with
        | nil => exact absurd rfl last
        | cons first others => simp [subscribeLookup, named]

/-- Without a fault it is the loop on the answers. -/
theorem subscribeRun_result (libevents : List Libevent) (call : ℕ)
    (survives : (subscribeRun phpJsonDecode self address topic config call libevents).fault = none) :
    (subscribeRun phpJsonDecode self address topic config call libevents).result =
      subscribeLookup self address topic config
        (libevents.filterMap fun l => (l.verdict phpJsonDecode).toOption) := by
  induction libevents generalizing call with
  | nil => rfl
  | cons l libevents ih =>
      cases verdict : l.verdict phpJsonDecode with
      | error fault =>
          rw [subscribeRun_of_error failures room verdict] at survives
          cases survives
      | ok answer =>
          rw [List.filterMap_cons, verdict]
          change _ = subscribeLookup self address topic config (answer :: _)
          by_cases repeats : answer = .producers []
          · subst repeats
            rw [subscribeRun_of_repeated failures room verdict] at survives ⊢
            rw [subscribeLookup, ← ih (call + 1) survives]
          · rw [subscribeRun_of_ok failures room verdict repeats]
            cases answer with
            | empty => rfl
            | malformed => rfl
            | noProducers => rfl
            | producers list =>
                cases list with
                | nil => exact absurd rfl repeats
                | cons first others => rfl

/-- The ledger of a lookup whose text comes to an answer. -/
theorem performAll_answeredOps {answer : LookupAnswer}
    (verdict : l.verdict phpJsonDecode = .ok answer) (call : ℕ) :
    ∃ ledger, Ledger.start.performAll (answeredOps call address topic l answer) = some ledger ∧
      (answer = .producers [] → ledger.owned.card + ledger.lost = 7) := by
  obtain ⟨lookupdReStr, text, same⟩ : ∃ lookupdReStr,
      (lookup call address topic l).outcome.text = .ok lookupdReStr ∧ _ :=
    text_of_verdict failures room verdict call
  obtain ⟨ledger, performed, count⟩ := performAll_answer call address topic text answer
  refine ⟨ledger, performed, fun repeats => count ?_ ⟨[], repeats⟩⟩
  cases outcome : (lookup call address topic l).outcome with
  | copied copy => exact ⟨copy, rfl⟩
  | faulted fault =>
      rw [outcome] at text
      cases text
  | literal failure =>
      -- its text has no producers at all
      rw [outcome] at text
      obtain rfl := Except.ok.inj text
      have spoken : failure.msg ≠ [] := by cases failure <;> decide
      rw [lookupAnswer, if_neg spoken, failures] at same
      rw [repeats] at same
      cases same

/-- **The heap of the loop**: nothing is freed twice or used afterwards, and seven objects stay of
every lookup that is repeated. -/
theorem performAll_subscribeRun (libevents : List Libevent) {ledger : Ledger (ℕ × LookupObject)}
    (call : ℕ) (earlier : ∀ pointer ∈ ledger.owned, pointer.1 < call) :
    ∃ ledger', ledger.performAll
        (subscribeRun phpJsonDecode self address topic config call libevents).ops = some ledger' ∧
      ((∀ l ∈ libevents, l.verdict phpJsonDecode = .ok (.producers [])) →
        ledger'.owned.card + ledger'.lost =
          ledger.owned.card + ledger.lost + 7 * libevents.length) := by
  induction libevents generalizing ledger call with
  | nil => exact ⟨ledger, rfl, fun _ => rfl⟩
  | cons l libevents ih =>
      cases verdict : l.verdict phpJsonDecode with
      | error fault =>
          obtain ⟨made, performed, -⟩ := performAll_lookup call (l := l) address topic
          have own : ∀ op ∈ (lookup call address topic l).ops, op.pointer.1 = call :=
            fun op listed => (lookup_pointers call address topic op listed).1
          obtain ⟨next, done, -⟩ := performAll_behind earlier own performed
          rw [subscribeRun_of_error failures room verdict]
          refine ⟨next, done, fun repeats => ?_⟩
          have repeated := repeats l List.mem_cons_self
          rw [verdict] at repeated
          cases repeated
      | ok answer =>
          obtain ⟨made, performed, seven⟩ : ∃ made,
              Ledger.start.performAll (answeredOps call address topic l answer) = some made ∧ _ :=
            performAll_answeredOps failures room verdict call
          obtain ⟨next, done, count, later⟩ :=
            performAll_behind earlier (answeredOps_pointers call address topic l answer) performed
          by_cases repeats : answer = .producers []
          · subst repeats
            obtain ⟨last, rest, total⟩ := ih (call + 1) later
            rw [subscribeRun_of_repeated failures room verdict]
            refine ⟨last, ?_, fun all => ?_⟩
            · rw [Ledger.performAll_append, done]
              exact rest
            · have more := total (List.forall_mem_cons.mp all).2
              have seven := seven rfl
              rw [List.length_cons]
              omega
          · rw [subscribeRun_of_ok failures room verdict repeats]
            refine ⟨next, done, fun all => ?_⟩
            have repeated := all l List.mem_cons_self
            rw [verdict] at repeated
            exact absurd (Except.ok.inj repeated) repeats

/-- **How `subscribe` takes the server**, over all its repetitions. The exceptions, the workers and
the faults come from the first lookup that does not list an empty array of producers. An object that
libevent refuses, or a URL without a host, raises the exception for a missing topic; the exception
for a server that is not available is raised for responses without a body alone. A request that
ended in NULL or not at all is a fault. Without one `subscribe` does what it does for the answers.
Nothing is freed twice, and every repetition leaves seven objects behind. -/
theorem subscribe_looks_up (self : Nsq) (config : SubscribeConfig) (libevents : List Libevent) :
    let run := subscribeRun phpJsonDecode self address topic config 0 libevents
    (throwException .topicNotExists ∈ run.result.effects ↔
        ComesTo phpJsonDecode (fun l => l.Refuses ∨ l.Lacks phpJsonDecode) libevents) ∧
      (throwException .lookupdServerNotAvailable ∈ run.result.effects ↔
        ComesTo phpJsonDecode Libevent.Empty libevents) ∧
      (config.channel ≠ none → (run.result.ending = .starting ↔
        ComesTo phpJsonDecode (fun l => ∃ first others, l.Lists phpJsonDecode (first :: others))
          libevents)) ∧
      (run.fault = some .nullRequest ↔ ComesTo phpJsonDecode Libevent.Fails libevents) ∧
      (run.fault = some .uninitialised ↔ ComesTo phpJsonDecode Libevent.Hangs libevents) ∧
      run.fault ≠ some .overflow ∧
      (run.fault = none → run.result = subscribeLookup self address topic config
        (libevents.filterMap fun l => (l.verdict phpJsonDecode).toOption)) ∧
      ∃ blocks : Blocks (ℕ × LookupObject), Blocks.start.performAll run.ops = some blocks ∧
        ((∀ l ∈ libevents, l.Lists phpJsonDecode []) → blocks.live.card = 7 * libevents.length) := by
  refine ⟨?_, ?_, fun named => ?_, ?_, ?_, ?_, ?_, ?_⟩
  · rw [throws_subscribeRun failures room]
    simp only [reduceCtorEq, false_and, true_and, false_or, Libevent.verdict_noProducers]
  · rw [throws_subscribeRun failures room]
    simp only [reduceCtorEq, false_and, true_and, or_false, Libevent.verdict_empty]
  · rw [starting_subscribeRun failures room named]
    simp only [Libevent.verdict_producers]
  · rw [fault_subscribeRun failures room]
    simp only [Libevent.verdict_eq_error, reduceCtorEq, and_true, and_false, or_false]
  · rw [fault_subscribeRun failures room]
    simp only [Libevent.verdict_eq_error, reduceCtorEq, and_true, and_false, false_or]
  · rw [Ne, fault_subscribeRun failures room]
    rintro ⟨before, l, after, -, -, overflow⟩
    simp [Libevent.verdict_eq_error] at overflow
  · exact subscribeRun_result failures room libevents 0
  · obtain ⟨ledger, performed, seven⟩ : ∃ ledger, Ledger.start.performAll (subscribeRun
        phpJsonDecode self address topic config 0 libevents).ops = some ledger ∧ _ :=
      performAll_subscribeRun failures room libevents 0 fun pointer member =>
        absurd member (Finset.notMem_empty pointer)
    obtain ⟨blocks, done, keeps⟩ := Blocks.keeps_start.performAll performed
    refine ⟨blocks, done, fun repeats => ?_⟩
    rw [keeps.count, seven fun l listed => Libevent.verdict_producers.mpr (repeats l listed)]
    simp [Ledger.start]

end Loop

/-- The decoder on an empty list and on the texts of `request`. -/
def plainDecode (text : Bytes) : JsonDecoded :=
  if text = ascii "\x7b\"producers\":[]\x7d" then .array (some []) else .array none

/-- A lookup that finds no producers, and one whose connection is refused. -/
def plainLookups : List Libevent :=
  [⟨some ⟨some (ascii "127.0.0.1"), 4161, some (ascii "/lookup")⟩, true, true, true,
      [.finshCallback (some (ascii "\x7b\"producers\":[]\x7d"))]⟩,
    ⟨some ⟨some (ascii "127.0.0.1"), 4161, some (ascii "/lookup")⟩, true, true, false, []⟩]

theorem subscribe_looks_up_plain :
    throwException .topicNotExists ∈ (subscribeRun plainDecode ⟨none, none, none⟩
      (ascii "127.0.0.1:4161") (ascii "topic") ⟨some (ascii "topic"), none, none, none, none, none⟩ 0
      plainLookups).result.effects := by
  have failures : ∀ failure, plainDecode (RequestFailure.msg failure) = .array none := by
    intro failure
    cases failure <;> rfl
  have room : (BufferCall.lookup (ascii "127.0.0.1:4161") (ascii "topic")).Room := by
    change (cString _).length + (cString _).length ≤ if HasScheme _ then 129 else 122
    rw [if_neg (by decide)]
    decide
  refine (subscribe_looks_up failures room _ _ plainLookups).1.mpr
    ⟨[_], _, [], rfl, List.forall_mem_singleton.mpr ?_, .inl (.inr (.inr (.inr rfl)))⟩
  refine ⟨ascii "\x7b\"producers\":[]\x7d", ⟨?_, rfl⟩, by decide, rfl⟩
  rw [Libevent.Refuses]
  simp

end PhpNsq

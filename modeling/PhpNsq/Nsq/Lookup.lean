import PhpNsq.EncoderBuffers
import PhpNsq.Foundations.Blocks
import PhpNsq.Nsq.Methods

/-!
# The lookup of nsq_lookupd.c

`lookup` prints the URL and calls `request`, which asks for it with an event base of its own and
returns the text that `FinshCallback` has copied. Where libevent refuses an object, `request`
returns a JSON text of its own instead. How the calls of libevent come out is a parameter
(`Libevent`), and so is `php_json_decode`.

`subscribe` knows of all this by the text alone (`Libevent.verdict`). What a lookup makes is an
object of the lookup with a number, and of these `lookup` frees the URL.
-/

set_option autoImplicit false

namespace PhpNsq

open Foundations

/-- What `evhttp_uri_parse` finds in a URL. -/
structure HttpUri where
  host : Option Bytes
  port : ℤ
  path : Option Bytes

/-- A callback that `event_base_dispatch` runs. -/
inductive LoopCallback where
  /-- With the body of the response, if there is a request. -/
  | finshCallback (remoteRsp : Option Bytes)
  | connectionCloseCallback

/-- How the calls of libevent come out in `request`. -/
structure Libevent where
  uri : Option HttpUri
  eventBase : Bool
  dnsBase : Bool
  connection : Bool
  callbacks : List LoopCallback

/-- What `request` gives up at. -/
inductive RequestFailure where
  | uri
  | eventBase
  | dnsBase
  | host
  | connection

/-- What it prints to stderr then. -/
def RequestFailure.report : RequestFailure → Bytes
  | .uri => ascii "parse url failed!\n"
  | .eventBase => ascii "create event base failed!\n"
  | .dnsBase => ascii "create dns base failed!\n"
  | .host => ascii "parse host failed!\n"
  | .connection => ascii "create evhttp connection failed!\n"

/-- And returns. -/
def RequestFailure.msg : RequestFailure → Bytes
  | .uri => ascii "\x7b\"message\":\"parse url failed!\"\x7d"
  | .eventBase => ascii "\x7b\"message\":\"create event base failed!\"\x7d"
  | .dnsBase => ascii "\x7b\"message\":\"create dns base failed!\"\x7d"
  | .host => ascii "\x7b\"message\":\"stderr, parse host failed!\"\x7d"
  | .connection => ascii "\x7b\"message\":\"create evhttp connection failed!\"\x7d"

/-- What a lookup makes, besides the request, which the connection takes over. -/
inductive LookupObject where
  | url
  | uri
  | base
  | dnsbase
  | re
  | connection
  | result
  | lookupdRe
  deriving DecidableEq

/-- The request that is made. -/
structure HttpRequest where
  host : Bytes
  port : ℤ
  requestUrl : Bytes

/-- What a lookup runs into. -/
inductive LookupFault where
  /-- The URL does not fit into its allocation. -/
  | overflow
  /-- `FinshCallback` takes the input buffer of NULL. -/
  | nullRequest
  /-- `re->result` is as `emalloc` left it. -/
  | uninitialised
  deriving DecidableEq

/-- What a function of nsq_lookupd.c comes to. -/
inductive Looked where
  /-- It returns a string constant. -/
  | literal (failure : RequestFailure)
  /-- It returns the copy in `re->result`. -/
  | copied (text : Bytes)
  | faulted (fault : LookupFault)

/-- The text that is returned. -/
def Looked.text : Looked → Except LookupFault Bytes
  | .literal failure => .ok failure.msg
  | .copied text => .ok text
  | .faulted fault => .error fault

/-- What a function of nsq_lookupd.c did, and what it came to. -/
structure LookupRun where
  ops : List (BlockOp (ℕ × LookupObject))
  stderr : List Bytes
  asked : Option HttpRequest
  outcome : Looked

section Functions

variable (call : ℕ)

/-- `event_base_dispatch` in `request`, and `return re->result`. -/
def dispatchRequest : List LoopCallback →
    List (BlockOp (ℕ × LookupObject)) × List Bytes × Looked
  | [] => ([.touch (call, .re)], [], .faulted .uninitialised)
  | .finshCallback none :: _ => ([], [], .faulted .nullRequest)
  -- `event_base_loopbreak`: nothing runs behind it
  | .finshCallback (some buf) :: _ =>
      ([.alloc (call, .result), .touch (call, .re), .touch (call, .base), .touch (call, .re)], [],
        .copied (cString (buf ++ [0])))
  -- `event_base_loopexit`: what is active still runs
  | .connectionCloseCallback :: callbacks =>
      let (ops, stderr, outcome) := dispatchRequest callbacks
      (.touch (call, .base) :: ops, ascii "remote connection closed\n" :: stderr, outcome)

/-- `request` gives up. -/
def LookupRun.failed (ops : List (BlockOp (ℕ × LookupObject))) (failure : RequestFailure) :
    LookupRun :=
  ⟨ops, [failure.report], none, .literal failure⟩

/-- `request`. -/
def request (url : Bytes) (l : Libevent) : LookupRun :=
  match l.uri with
  | none => .failed [] .uri
  | some uri =>
      let parsed := [.alloc (call, .uri)]
      if l.eventBase then
        let based := parsed ++ [.alloc (call, .base)]
        if l.dnsBase then
          let resolving := based ++ [.touch (call, .base), .alloc (call, .dnsbase),
            .alloc (call, .re), .touch (call, .re), .touch (call, .uri)]
          match uri.host with
          | none => .failed resolving .host
          | some host =>
              let port := if uri.port < 0 then 80 else uri.port
              let requestUrl := if uri.path.getD [] = [] then ascii "/" else url
              let connecting := resolving ++ [.touch (call, .uri), .touch (call, .uri),
                .touch (call, .base), .touch (call, .dnsbase)]
              if l.connection then
                let (ops, stderr, outcome) := dispatchRequest call l.callbacks
                { ops := connecting ++ [.alloc (call, .connection), .touch (call, .connection),
                    .touch (call, .connection), .touch (call, .base)] ++ ops
                  stderr := stderr
                  asked := some ⟨host, port, requestUrl⟩
                  outcome := outcome }
              else .failed connecting .connection
        else .failed (based ++ [.touch (call, .base)]) .dnsBase
      else .failed parsed .eventBase

/-- `lookup`. -/
def lookup (host topic : Bytes) (l : Libevent) : LookupRun :=
  match sprintf urlBuffer (lookupUrl host topic) with
  | none => ⟨[.alloc (call, .url)], [], none, .faulted .overflow⟩
  | some url =>
      let data := request call url l
      { data with
        ops := [.alloc (call, .url), .touch (call, .url), .touch (call, .url)] ++ data.ops ++
          match data.outcome with
          | .faulted .nullRequest => []
          | _ => [.free (call, .url)] }

end Functions

/-- What `php_json_decode` makes of a text: no array, or one with producers or without. -/
inductive JsonDecoded where
  | malformed
  | array (producers : Option (List Producer))

/-- What `subscribe` takes a text for. -/
def lookupAnswer (phpJsonDecode : Bytes → JsonDecoded) (lookupdReStr : Bytes) : LookupAnswer :=
  if lookupdReStr = [] then .empty
  else
    match phpJsonDecode lookupdReStr with
    | .malformed => .malformed
    | .array none => .noProducers
    | .array (some producers) => .producers producers

/-- `php_json_decode` makes an array. -/
def decodeOps (call : ℕ) : LookupAnswer → List (BlockOp (ℕ × LookupObject))
  | .noProducers => [.alloc (call, .lookupdRe)]
  | .producers _ => [.alloc (call, .lookupdRe)]
  | _ => []

/-- What `subscribe` does with the text that it got. -/
def answerOps (call : ℕ) (looked : Looked) (answer : LookupAnswer) :
    List (BlockOp (ℕ × LookupObject)) :=
  match looked with
  | .copied _ => .touch (call, .result) :: decodeOps call answer
  | _ => decodeOps call answer

/-! ## What libevent answers -/

/-- What `FinshCallback` is called with. -/
def LoopCallback.remoteRsp : LoopCallback → Option (Option Bytes)
  | .finshCallback remoteRsp => some remoteRsp
  | .connectionCloseCallback => none

namespace Libevent

/-- An object is refused, or the URL has no host. -/
def Refuses (l : Libevent) : Prop :=
  l.uri.bind HttpUri.host = none ∨ l.eventBase = false ∨ l.dnsBase = false ∨ l.connection = false

/-- What the first `FinshCallback` is called with. -/
def response (l : Libevent) : Option (Option Bytes) := l.callbacks.findSome? LoopCallback.remoteRsp

/-- A response that comes in. -/
def Responds (l : Libevent) (body : Bytes) : Prop := ¬ l.Refuses ∧ l.response = some (some body)

/-- A response with these producers. -/
def Lists (phpJsonDecode : Bytes → JsonDecoded) (l : Libevent) (producers : List Producer) : Prop :=
  ∃ body, l.Responds body ∧ cString body ≠ [] ∧
    phpJsonDecode (cString body) = .array (some producers)

/-- A response without the key. -/
def Lacks (phpJsonDecode : Bytes → JsonDecoded) (l : Libevent) : Prop :=
  ∃ body, l.Responds body ∧ cString body ≠ [] ∧ phpJsonDecode (cString body) = .array none

/-- A response without a body, as far as a string goes. -/
def Empty (l : Libevent) : Prop := ∃ body, l.Responds body ∧ cString body = []

/-- The request ends with NULL in place of it. -/
def Fails (l : Libevent) : Prop := ¬ l.Refuses ∧ l.response = some none

/-- The loop ends without a response. -/
def Hangs (l : Libevent) : Prop := ¬ l.Refuses ∧ l.response = none

variable (l : Libevent)

instance : Decidable l.Refuses := inferInstanceAs (Decidable (_ ∨ _))

/-- **What `subscribe` takes it for.** -/
def verdict (phpJsonDecode : Bytes → JsonDecoded) (l : Libevent) : Except LookupFault LookupAnswer :=
  if l.Refuses then .ok .noProducers
  else
    match l.response with
    | none => .error .uninitialised
    | some none => .error .nullRequest
    | some (some body) => .ok (lookupAnswer phpJsonDecode (cString body))

variable {l} {phpJsonDecode : Bytes → JsonDecoded}

theorem verdict_eq_error {fault : LookupFault} : l.verdict phpJsonDecode = .error fault ↔
    (l.Fails ∧ fault = .nullRequest) ∨ (l.Hangs ∧ fault = .uninitialised) := by
  rw [verdict, Fails, Hangs]
  split
  · next refuses => simp [refuses]
  · next accepts =>
      cases l.response with
      | none => simp [accepts, eq_comm]
      | some remoteRsp => cases remoteRsp <;> simp [accepts, eq_comm]

theorem verdict_eq_ok {answer : LookupAnswer} : l.verdict phpJsonDecode = .ok answer ↔
    (l.Refuses ∧ answer = .noProducers) ∨
      ∃ body, l.Responds body ∧ lookupAnswer phpJsonDecode (cString body) = answer := by
  simp only [verdict, Responds]
  split
  · next refuses => simp [refuses, eq_comm]
  · next accepts =>
      cases l.response with
      | none => simp [accepts]
      | some remoteRsp => cases remoteRsp <;> simp [accepts]

end Libevent

section Answers

variable {phpJsonDecode : Bytes → JsonDecoded} {lookupdReStr : Bytes} {l : Libevent}

theorem lookupAnswer_eq_empty : lookupAnswer phpJsonDecode lookupdReStr = .empty ↔
    lookupdReStr = [] := by
  rw [lookupAnswer]
  split
  · next none_left => exact iff_of_true rfl none_left
  · next some_left =>
      refine iff_of_false ?_ some_left
      split <;> rintro ⟨⟩

theorem lookupAnswer_eq_noProducers : lookupAnswer phpJsonDecode lookupdReStr = .noProducers ↔
    lookupdReStr ≠ [] ∧ phpJsonDecode lookupdReStr = .array none := by
  rw [lookupAnswer]
  split
  · next none_left => simp [none_left]
  · next some_left => split <;> simp_all

theorem lookupAnswer_eq_producers {list : List Producer} :
    lookupAnswer phpJsonDecode lookupdReStr = .producers list ↔
      lookupdReStr ≠ [] ∧ phpJsonDecode lookupdReStr = .array (some list) := by
  rw [lookupAnswer]
  split
  · next none_left => simp [none_left]
  · next some_left => split <;> simp_all

/-- The answers in the terms of the server. -/
theorem Libevent.verdict_empty : l.verdict phpJsonDecode = .ok .empty ↔ l.Empty := by
  simp [verdict_eq_ok, lookupAnswer_eq_empty, Empty]

theorem Libevent.verdict_noProducers :
    l.verdict phpJsonDecode = .ok .noProducers ↔ l.Refuses ∨ l.Lacks phpJsonDecode := by
  simp only [verdict_eq_ok, lookupAnswer_eq_noProducers, Lacks, and_true]

theorem Libevent.verdict_producers {list : List Producer} :
    l.verdict phpJsonDecode = .ok (.producers list) ↔ l.Lists phpJsonDecode list := by
  simp [verdict_eq_ok, lookupAnswer_eq_producers, Lists]

end Answers

section Outcomes

variable (call : ℕ) {l : Libevent}

/-- What the callbacks come to. -/
theorem dispatchRequest_outcome (callbacks : List LoopCallback) :
    (dispatchRequest call callbacks).2.2 =
      match callbacks.findSome? LoopCallback.remoteRsp with
      | none => .faulted .uninitialised
      | some none => .faulted .nullRequest
      | some (some body) => .copied (cString body) := by
  induction callbacks with
  | nil => rfl
  | cons callback callbacks ih =>
      cases callback with
      | connectionCloseCallback => exact ih
      | finshCallback remoteRsp =>
          cases remoteRsp with
          | none => rfl
          | some body => exact congrArg Looked.copied (cString_append_zero body)

/-- The parts of what is not refused. -/
theorem Libevent.parts_of_not_refuses (accepts : ¬ l.Refuses) :
    ∃ uri host, l.uri = some uri ∧ uri.host = some host ∧ l.eventBase = true ∧ l.dnsBase = true ∧
      l.connection = true := by
  simp only [Libevent.Refuses, not_or, Bool.not_eq_false] at accepts
  obtain ⟨named, based, resolving, connected⟩ := accepts
  obtain ⟨host, here⟩ := Option.ne_none_iff_exists'.mp named
  obtain ⟨uri, parsed, host_there⟩ := Option.bind_eq_some_iff.mp here
  exact ⟨uri, host, parsed, host_there, based, resolving, connected⟩

/-- What `request` does up to the dispatch. -/
def connectOps (call : ℕ) : List (BlockOp (ℕ × LookupObject)) :=
  [.alloc (call, .uri), .alloc (call, .base), .touch (call, .base), .alloc (call, .dnsbase),
    .alloc (call, .re), .touch (call, .re), .touch (call, .uri), .touch (call, .uri),
    .touch (call, .uri), .touch (call, .base), .touch (call, .dnsbase), .alloc (call, .connection),
    .touch (call, .connection), .touch (call, .connection), .touch (call, .base)]

/-- What is refused ends somewhere on the way, with a text of `request`. -/
theorem request_of_refuses (refuses : l.Refuses) (url : Bytes) :
    ∃ done rest failure, connectOps call = done ++ rest ∧ (request call url l).ops = done ∧
      (request call url l).outcome = .literal failure := by
  rw [request]
  cases parsed : l.uri with
  | none => exact ⟨_, _, _, (List.nil_append _).symm, rfl, rfl⟩
  | some uri =>
      dsimp only
      split
      · next based =>
          split
          · next resolving =>
              cases named : uri.host with
              | none => exact ⟨_, _, _, rfl, rfl, rfl⟩
              | some host =>
                  rcases refuses with none_named | no_base | no_dns | no_connection
                  · rw [parsed, Option.bind_some, named] at none_named
                    cases none_named
                  · rw [based] at no_base
                    cases no_base
                  · rw [resolving] at no_dns
                    cases no_dns
                  · simp only [no_connection]
                    exact ⟨_, _, _, rfl, rfl, rfl⟩
          · exact ⟨_, _, _, rfl, rfl, rfl⟩
      · exact ⟨_, _, _, rfl, rfl, rfl⟩

/-- What is not refused is dispatched. -/
theorem request_of_accepts (accepts : ¬ l.Refuses) (url : Bytes) :
    (request call url l).ops = connectOps call ++ (dispatchRequest call l.callbacks).1 ∧
      (request call url l).outcome = (dispatchRequest call l.callbacks).2.2 := by
  obtain ⟨uri, host, parsed, named, based, resolving, connected⟩ := l.parts_of_not_refuses accepts
  rw [request, parsed]
  simp only [based, resolving, named, connected]
  exact ⟨rfl, rfl⟩

/-- The ledger behind the callbacks. -/
theorem performAll_dispatchRequest {ledger : Ledger (ℕ × LookupObject)}
    (base : (call, .base) ∈ ledger.owned) (re : (call, .re) ∈ ledger.owned)
    (new : (call, .result) ∉ ledger.owned) (callbacks : List LoopCallback) :
    ledger.performAll (dispatchRequest call callbacks).1 =
      some (match (dispatchRequest call callbacks).2.2 with
        | .copied _ => ⟨insert (call, .result) ledger.owned, ledger.lost⟩
        | _ => ledger) := by
  induction callbacks with
  | nil => exact Ledger.performAll_touch re
  | cons callback callbacks ih =>
      cases callback with
      | connectionCloseCallback =>
          exact (Ledger.performAll_touch base).trans ih
      | finshCallback remoteRsp =>
          cases remoteRsp with
          | none => rfl
          | some body =>
              have re' := Finset.mem_insert_of_mem (b := (call, .result)) re
              have base' := Finset.mem_insert_of_mem (b := (call, .result)) base
              refine (Ledger.performAll_alloc new).trans ?_
              refine (Ledger.performAll_touch re').trans ?_
              refine (Ledger.performAll_touch base').trans ?_
              exact Ledger.performAll_touch re'

/-- The pointers that `request` works through: its own, and not `url`. -/
theorem request_pointers (url : Bytes) :
    ∀ op ∈ (request call url l).ops, op.pointer.1 = call ∧ op.pointer.2 ≠ .url ∧
      op.pointer.2 ≠ .lookupdRe := by
  have connect : ∀ op ∈ connectOps call, op.pointer.1 = call ∧ op.pointer.2 ≠ .url ∧
      op.pointer.2 ≠ .lookupdRe := by
    simp [connectOps, BlockOp.pointer]
  have dispatch : ∀ callbacks, ∀ op ∈ (dispatchRequest call callbacks).1,
      op.pointer.1 = call ∧ op.pointer.2 ≠ .url ∧ op.pointer.2 ≠ .lookupdRe := by
    intro callbacks
    induction callbacks with
    | nil => simp [dispatchRequest, BlockOp.pointer]
    | cons callback callbacks ih =>
        cases callback with
        | connectionCloseCallback =>
            exact List.forall_mem_cons.mpr ⟨by simp [BlockOp.pointer], ih⟩
        | finshCallback remoteRsp => cases remoteRsp <;> simp [dispatchRequest, BlockOp.pointer]
  by_cases refuses : l.Refuses
  · obtain ⟨done, rest, failure, whole, ops, -⟩ := request_of_refuses call refuses url
    rw [ops]
    rw [whole] at connect
    exact (List.forall_mem_append.mp connect).1
  · rw [(request_of_accepts call refuses url).1]
    exact List.forall_mem_append.mpr ⟨connect, dispatch l.callbacks⟩

/-- The objects that there are at the dispatch. -/
def dispatchObjects (call : ℕ) : Finset (ℕ × LookupObject) :=
  {(call, .connection), (call, .re), (call, .dnsbase), (call, .base), (call, .uri)}

theorem performAll_connectOps :
    Ledger.start.performAll (connectOps call) = some ⟨dispatchObjects call, 0⟩ := by
  simp [connectOps, Ledger.start, Ledger.performAll_alloc, Ledger.performAll_touch,
    dispatchObjects]

/-- What a copied text leaves. -/
def copiedObjects (call : ℕ) : Ledger (ℕ × LookupObject) :=
  ⟨insert (call, .result) (dispatchObjects call), 0⟩

/-- `request` uses nothing that it did not make. -/
theorem performAll_request (url : Bytes) :
    ∃ ledger, Ledger.start.performAll (request call url l).ops = some ledger ∧
      ∀ text, (request call url l).outcome = .copied text → ledger = copiedObjects call := by
  by_cases refuses : l.Refuses
  · obtain ⟨done, rest, failure, whole, ops, outcome⟩ := request_of_refuses call refuses url
    have all := performAll_connectOps call
    rw [whole, Ledger.performAll_append] at all
    obtain ⟨ledger, performed, -⟩ := Option.bind_eq_some_iff.mp all
    refine ⟨ledger, by rw [ops, performed], fun text copied => ?_⟩
    rw [outcome] at copied
    cases copied
  · obtain ⟨ops, outcome⟩ := request_of_accepts call refuses url
    have base : (call, .base) ∈ dispatchObjects call := by simp [dispatchObjects]
    have re : (call, .re) ∈ dispatchObjects call := by simp [dispatchObjects]
    have new : (call, .result) ∉ dispatchObjects call := by simp [dispatchObjects]
    have dispatched : Ledger.performAll ⟨dispatchObjects call, 0⟩ _ = _ :=
      performAll_dispatchRequest call base re new l.callbacks
    rw [ops, Ledger.performAll_append, performAll_connectOps, Option.bind_some, dispatched, outcome]
    refine ⟨_, rfl, fun text copied => ?_⟩
    rw [copied]
    rfl

/-- The URL is given back. -/
theorem performAll_lookup (host topic : Bytes) :
    ∃ ledger, Ledger.start.performAll (lookup call host topic l).ops = some ledger ∧
      ∀ text, (lookup call host topic l).outcome = .copied text → ledger = copiedObjects call := by
  rw [lookup]
  cases sprintf urlBuffer (lookupUrl host topic) with
  | none =>
      refine ⟨_, Ledger.performAll_alloc (Finset.notMem_empty _), ?_⟩
      rintro text ⟨⟩
  | some url =>
      obtain ⟨made, performed, copies⟩ := performAll_request call (l := l) url
      have pointers := request_pointers call (l := l) url
      have begun : Ledger.start.performAll
          [.alloc (call, LookupObject.url), .touch (call, .url), .touch (call, .url)] =
            some (Ledger.start.frame {(call, .url)} 0) := by
        simp [Ledger.start, Ledger.performAll_alloc, Ledger.performAll_touch, Ledger.frame]
      have framed : (Ledger.start.frame {(call, .url)} 0).performAll (request call url l).ops =
          some (made.frame {(call, .url)} 0) := by
        rw [Ledger.performAll_frame, performed, Option.map_some]
        intro op listed member
        exact (pointers op listed).2.1 (congrArg Prod.snd (Finset.mem_singleton.mp member))
      have other : (call, LookupObject.url) ∉ made.owned := by
        intro member
        rcases Ledger.owned_of_performAll performed _ member with before | ⟨op, listed, same⟩
        · exact Finset.notMem_empty _ before
        · exact (pointers op listed).2.1 (congrArg Prod.snd same)
      have freed : (made.frame {(call, .url)} 0).performAll [.free (call, .url)] = some made := by
        rw [Ledger.performAll_free (by simp [Ledger.frame])]
        simp [Ledger.frame, Finset.erase_eq_of_notMem other]
      dsimp only
      rw [Ledger.performAll_append, Ledger.performAll_append, begun, Option.bind_some, framed,
        Option.bind_some]
      split
      · next fault =>
          refine ⟨_, Ledger.performAll_nil, fun text copied => ?_⟩
          rw [fault] at copied
          cases copied
      · exact ⟨made, freed, copies⟩

/-- All that a lookup works through is its own. -/
theorem lookup_pointers (host topic : Bytes) :
    ∀ op ∈ (lookup call host topic l).ops, op.pointer.1 = call ∧ op.pointer.2 ≠ .lookupdRe := by
  rw [lookup]
  cases sprintf urlBuffer (lookupUrl host topic) with
  | none => simp [BlockOp.pointer]
  | some url =>
      have own : ∀ op ∈ (request call url l).ops,
          op.pointer.1 = call ∧ op.pointer.2 ≠ .lookupdRe := fun op listed =>
        ⟨(request_pointers call url op listed).1, (request_pointers call url op listed).2.2⟩
      refine List.forall_mem_append.mpr ⟨List.forall_mem_append.mpr ⟨by simp [BlockOp.pointer], own⟩,
        ?_⟩
      split
      · exact List.forall_mem_nil _
      · simp [BlockOp.pointer]

/-- A text and what `subscribe` makes of it. -/
theorem performAll_answer (host topic : Bytes) {text : Bytes}
    (returned : (lookup call host topic l).outcome.text = .ok text) (answer : LookupAnswer) :
    ∃ ledger, Ledger.start.performAll ((lookup call host topic l).ops ++
        answerOps call (lookup call host topic l).outcome answer) = some ledger ∧
      ((∃ copy, (lookup call host topic l).outcome = .copied copy) →
        (∃ producers, answer = .producers producers) → ledger.owned.card + ledger.lost = 7) := by
  obtain ⟨made, performed, copies⟩ := performAll_lookup call (l := l) host topic
  have other : (call, LookupObject.lookupdRe) ∉ made.owned := by
    intro member
    rcases Ledger.owned_of_performAll performed _ member with before | ⟨op, listed, same⟩
    · exact Finset.notMem_empty _ before
    · exact (lookup_pointers call host topic op listed).2 (congrArg Prod.snd same)
  have decoded : ∃ ledger, made.performAll (decodeOps call answer) = some ledger ∧
      ((∃ producers, answer = .producers producers) →
        ledger.owned.card + ledger.lost = made.owned.card + made.lost + 1) := by
    have one := Finset.card_insert_of_notMem other
    cases answer with
    | empty => exact ⟨made, rfl, by rintro ⟨producers, ⟨⟩⟩⟩
    | malformed => exact ⟨made, rfl, by rintro ⟨producers, ⟨⟩⟩⟩
    | noProducers => exact ⟨_, Ledger.performAll_alloc other, by rintro ⟨producers, ⟨⟩⟩⟩
    | producers list =>
        refine ⟨_, Ledger.performAll_alloc other, fun _ => ?_⟩
        change (insert (call, LookupObject.lookupdRe) made.owned).card + made.lost = _
        omega
  rw [Ledger.performAll_append, performed, Option.bind_some]
  obtain ⟨ledger, more, count⟩ := decoded
  cases outcome : (lookup call host topic l).outcome with
  | faulted fault =>
      rw [outcome] at returned
      cases returned
  | literal failure => exact ⟨ledger, more, by rintro ⟨copy, ⟨⟩⟩⟩
  | copied copy =>
      obtain rfl := copies copy outcome
      refine ⟨ledger, (Ledger.performAll_touch (Finset.mem_insert_self ..)).trans more,
        fun _ producers => ?_⟩
      rw [count producers]
      simp [copiedObjects, dispatchObjects]

end Outcomes

end PhpNsq

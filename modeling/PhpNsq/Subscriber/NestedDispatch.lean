import PhpNsq.Foundations.Blocks
import PhpNsq.Subscriber.Isolation

/-!
# The nested event loops of a consumer

`subscribe` makes an event base, a bufferevent and a persistent timer, and dispatches the base. When
the connection is lost `conn_eventcb` calls `subscribe` again and does not come back, so the new
base is dispatched while the old ones wait on the stack, with their timers. Only when `subscribe`
fails does `conn_eventcb` go on, to `bufferevent_free` behind its branches, and the old base is
dispatched again.

`NestedConsumer` keeps this stack and the objects of libevent as allocated blocks. `Consumer` knows
the bufferevent in `arg->bev_res` by its `link` alone. That is enough: the two have the same runs
(`nested_dispatch`). So of what libevent calls back for, `Consumer` leaves out what frees a
bufferevent twice or uses it after it was freed, and nothing else.

Every connection leaves its base and its timer behind, and its bufferevent too unless it was lost
by an error.
-/

set_option autoImplicit false

namespace PhpNsq

open Foundations

/-- The objects that a call of `subscribe` makes, by the number of the call. -/
inductive Resource where
  | base (call : ℕ)
  | bev (call : ℕ)
  | processEvent (call : ℕ)
  deriving DecidableEq

def Resource.call : Resource → ℕ
  | .base call => call
  | .bev call => call
  | .processEvent call => call

/-- From `event_base_new` to `event_add`. -/
def makeOps (call : ℕ) : List (BlockOp Resource) :=
  [.alloc (.base call), .touch (.base call), .alloc (.bev call), .touch (.bev call),
    .touch (.base call), .alloc (.processEvent call), .touch (.processEvent call)]

/-- `subscribe`, as far as it gets. -/
def subscribeOps (call : ℕ) : Subscription → List (BlockOp Resource)
  | .noBase => []
  | .refused => makeOps call
  | .dispatching => makeOps call ++ [.touch (.base call)]

/-- `conn_eventcb` for a loss. Behind the branches it frees the bufferevent, when it gets there. -/
def lossOps (current call : ℕ) (reason : Loss) (outcome : Subscription) :
    List (BlockOp Resource) :=
  (if reason = .error then [.free (.bev current)] else []) ++ subscribeOps call outcome ++
    (if outcome = .dispatching then [] else [.free (.bev current)])

/-- The statics of `readcb`, with the empty input buffer of a new bufferevent. Nothing was written to
it. -/
def ReadState.disconnected (s : ReadState) : ReadState :=
  { s with input := [], log := [], opened := 0, drained := 0 }

/-- A consumer with the calls of `subscribe` on its stack: the one that dispatches, those that wait
in `conn_eventcb` for another one, and the one that made the bufferevent in `arg->bev_res`. -/
structure NestedConsumer where
  read : ReadState
  exception : Bool
  subscribed : ℕ
  current : ℕ
  outer : List (ℕ × Loss)
  bevRes : ℕ
  established : Bool
  resources : Blocks Resource

namespace NestedConsumer

/-- In the `event_base_dispatch` of the first call. -/
def initial (msg : NSQMsg) : NestedConsumer where
  read := .initial msg
  exception := false
  subscribed := 1
  current := 0
  outer := []
  bevRes := 0
  established := false
  resources := (Blocks.start.performAll (subscribeOps 0 .dispatching)).getD .start

variable (n : NestedConsumer)

/-- libevent has callbacks for the bufferevent of the base that is dispatched. -/
def alive : Bool := (n.resources.target (.bev n.current)).isSome

/-- `zend_register_resource` for a new bufferevent. -/
def register (resources : Blocks Resource) : NestedConsumer :=
  { n with
    read := n.read.disconnected
    bevRes := n.subscribed
    resources := resources }

/-- The branch of `conn_eventcb` for `BEV_EVENT_CONNECTED`. -/
def connected (nsqConfig : Option Bytes) : Option NestedConsumer :=
  if n.alive = true ∧ n.established = false then
    (opening nsqConfig n.read.msg).map fun (past, behind) =>
      { n with
        read := { n.read with
          log := n.read.log ++ past.map (.direct .extension) ++ behind.map (.buffered .extension) }
        established := true }
  else none

/-- A tick of the timer of the base that is dispatched. A message is answered on the bufferevent in
`arg->bev_res`. -/
def tick (run : CallbackRun) : Option NestedConsumer :=
  match processMessageQueue n.read.msg.rdy run n.exception n.read.queue with
  | none => none
  | some (effects, exception, queue) =>
      let ops := if n.read.queue.messageQueueHead = none then [] else [.touch (.bev n.bevRes)]
      (n.resources.performAll ops).map fun resources =>
        { n with
          read := { n.read with queue := queue, log := n.read.log ++ effects }
          exception := exception
          resources := resources }

/-- The branches of `conn_eventcb` for `BEV_EVENT_EOF` and `BEV_EVENT_ERROR`. -/
def lost (reason : Loss) (outcome : Subscription) : Option NestedConsumer :=
  if n.alive = true then
    (n.resources.performAll (lossOps n.current n.subscribed reason outcome)).map fun resources =>
      match outcome with
      | .dispatching =>
          { n.register resources with
            subscribed := n.subscribed + 1
            current := n.subscribed
            outer := (n.current, reason) :: n.outer
            established := false }
      | .refused => { n.register resources with subscribed := n.subscribed + 1, exception := true }
      | .noBase =>
          { n with subscribed := n.subscribed + 1, exception := true, resources := resources }
  else none

/-- What a consumer knows of the bufferevent in `arg->bev_res`. -/
def link : Link :=
  if n.alive = true then if n.established = true then .up else .connecting
  else if (n.resources.target (.bev n.bevRes)).isSome then .unconnectable
  else .freed

/-- The two agree on what they share. -/
structure Shows (c : Consumer) : Prop where
  read : n.read = c.read
  exception : n.exception = c.exception
  link : n.link = c.link

end NestedConsumer

/-- The events of a nested consumer. -/
def Nests (malloc : Malloc) (nsqConfig : Option Bytes) (n : NestedConsumer) :
    ConsumerEvent → NestedConsumer → Prop
  | .connected, n' => n.connected nsqConfig = some n'
  | .received call, n' => n.alive = true ∧ n.established = true ∧ ∃ read,
      Readcb malloc n.read call read ∧ n' = { n with read := read }
  | .tick run, n' => n.tick run = some n'
  | .lost reason outcome, n' => n.lost reason outcome = some n'

/-! ## The objects, call by call -/

/-- What a call made. -/
def made (call : ℕ) : Subscription → Finset Resource
  | .noBase => ∅
  | _ => {.base call, .bev call, .processEvent call}

section Ledgers

variable {owned : Finset Resource} {call current : ℕ}

theorem card_made (call : ℕ) {outcome : Subscription} (base : outcome ≠ .noBase) :
    (made call outcome).card = 3 := by
  cases outcome with
  | noBase => exact absurd rfl base
  | refused => rfl
  | dispatching => rfl

/-- A call makes its objects. -/
theorem ledger_subscribeOps (new : ∀ resource ∈ owned, resource.call ≠ call)
    (outcome : Subscription) :
    Ledger.performAll ⟨owned, 0⟩ (subscribeOps call outcome) =
      some ⟨made call outcome ∪ owned, 0⟩ := by
  have base : Resource.base call ∉ owned := fun member => new _ member rfl
  have bev : Resource.bev call ∉ insert (.base call) owned := by
    rw [Finset.mem_insert, not_or]
    exact ⟨by rintro ⟨⟩, fun member => new _ member rfl⟩
  have event : Resource.processEvent call ∉ insert (.bev call) (insert (.base call) owned) := by
    rw [Finset.mem_insert, Finset.mem_insert, not_or, not_or]
    exact ⟨by rintro ⟨⟩, by rintro ⟨⟩, fun member => new _ member rfl⟩
  have result : insert (.processEvent call) (insert (.bev call) (insert (.base call) owned)) =
      ({.base call, .bev call, .processEvent call} : Finset Resource) ∪ owned := by
    ext resource
    simp only [Finset.mem_insert, Finset.mem_union, Finset.mem_singleton]
    tauto
  have making : Ledger.performAll ⟨owned, 0⟩ (makeOps call) =
      some ⟨({.base call, .bev call, .processEvent call} : Finset Resource) ∪ owned, 0⟩ := by
    rw [makeOps, Ledger.performAll_alloc base, Ledger.performAll_touch (Finset.mem_insert_self ..),
      Ledger.performAll_alloc bev, Ledger.performAll_touch (Finset.mem_insert_self ..),
      Ledger.performAll_touch (Finset.mem_insert_of_mem (Finset.mem_insert_self ..)),
      Ledger.performAll_alloc event, Ledger.performAll_touch (Finset.mem_insert_self ..),
      Ledger.performAll_nil, result]
  cases outcome with
  | noBase => rw [subscribeOps, made, Finset.empty_union, Ledger.performAll_nil]
  | refused => exact making
  | dispatching =>
      rw [subscribeOps, Ledger.performAll_append, making, Option.bind_some,
        Ledger.performAll_touch (by simp), Ledger.performAll_nil]
      rfl

/-- **A loss.** The bufferevent is freed before `subscribe`, behind it, or not at all; both is what
the ledger does not allow. -/
theorem ledger_lossOps (here : .bev current ∈ owned) (new : ∀ resource ∈ owned, resource.call ≠ call)
    (reason : Loss) (outcome : Subscription) :
    Ledger.performAll ⟨owned, 0⟩ (lossOps current call reason outcome) =
      match reason, outcome with
      | .eof, .dispatching => some ⟨made call outcome ∪ owned, 0⟩
      | .error, .dispatching => some ⟨made call outcome ∪ owned.erase (.bev current), 0⟩
      | .eof, _ => some ⟨(made call outcome ∪ owned).erase (.bev current), 0⟩
      | .error, _ => none := by
  have apart : current ≠ call := fun same => new _ here same
  have kept : Resource.bev current ∈ made call outcome ∪ owned := Finset.mem_union_right _ here
  have gone : Resource.bev current ∉ made call outcome ∪ owned.erase (.bev current) := by
    cases outcome <;> simp [made, apart]
  have new' : ∀ resource ∈ owned.erase (.bev current), resource.call ≠ call :=
    fun resource member => new resource (Finset.mem_of_mem_erase member)
  cases reason with
  | eof =>
      rw [lossOps, if_neg (by decide), List.nil_append, Ledger.performAll_append,
        ledger_subscribeOps new, Option.bind_some]
      cases outcome with
      | dispatching => rfl
      | refused => exact Ledger.performAll_free kept
      | noBase => exact Ledger.performAll_free kept
  | error =>
      rw [lossOps, if_pos rfl, List.append_assoc, List.singleton_append,
        Ledger.performAll_free here, Ledger.performAll_append, ledger_subscribeOps new',
        Option.bind_some]
      cases outcome with
      | dispatching => rfl
      | refused => exact Ledger.performAll_free_eq_none gone
      | noBase => exact Ledger.performAll_free_eq_none gone

end Ledgers

/-! ## What holds between the events -/

/-- The losses after which another base is dispatched. -/
def reconnections (events : List ConsumerEvent) : ℕ :=
  events.countP fun
    | .lost _ .dispatching => true
    | _ => false

/-- The losses after which no bufferevent could be connected. -/
def refusals (events : List ConsumerEvent) : ℕ :=
  events.countP fun
    | .lost _ .refused => true
    | _ => false

/-- The losses that free the bufferevent. -/
def freedBevs (events : List ConsumerEvent) : ℕ :=
  events.countP fun
    | .lost .eof .dispatching => false
    | .lost _ _ => true
    | _ => false

theorem reconnections_append (first second : List ConsumerEvent) :
    reconnections (first ++ second) = reconnections first + reconnections second :=
  List.countP_append

theorem refusals_append (first second : List ConsumerEvent) :
    refusals (first ++ second) = refusals first + refusals second :=
  List.countP_append

theorem freedBevs_append (first second : List ConsumerEvent) :
    freedBevs (first ++ second) = freedBevs first + freedBevs second :=
  List.countP_append

/-- The loss that leaves `arg->bev_res` with a freed bufferevent. -/
def baseless (events : List ConsumerEvent) : Bool :=
  events.any fun
    | .lost _ .noBase => true
    | _ => false

theorem exists_of_rel_some {α β : Type*} {related : α → β → Prop} {a : Option α} {b : Option β}
    (rel : Option.Rel related a b) {y : β} (here : b = some y) :
    ∃ x, a = some x ∧ related x y := by
  subst here
  cases rel with
  | some both => exact ⟨_, rfl, both⟩

theorem exists_of_some_rel {α β : Type*} {related : α → β → Prop} {a : Option α} {b : Option β}
    (rel : Option.Rel related a b) {x : α} (here : a = some x) :
    ∃ y, b = some y ∧ related x y := by
  subst here
  cases rel with
  | some both => exact ⟨_, rfl, both⟩

namespace NestedConsumer

/-- **The objects after some events**, as owned by the calls that made them. -/
structure Objects (events : List ConsumerEvent) (n : NestedConsumer) (owned : Finset Resource) :
    Prop where
  keeps : n.resources.Keeps ⟨owned, 0⟩
  old : ∀ resource ∈ owned, resource.call < n.subscribed
  here : .bev n.current ∈ owned → n.bevRes = n.current
  before : ∀ pair ∈ n.outer, pair.1 < n.current
  counted : n.current < n.subscribed
  behind : ∀ pair ∈ n.outer, .bev pair.1 ∈ owned ↔ pair.2 = .eof
  depth : n.outer.length = reconnections events
  card : owned.card + freedBevs events = 3 * (1 + reconnections events + refusals events)
  dangling : .bev n.bevRes ∉ owned ↔ baseless events = true

variable {n : NestedConsumer} {events : List ConsumerEvent} {owned : Finset Resource}

theorem Objects.initial (msg : NSQMsg) :
    Objects [] (.initial msg) (made 0 .dispatching) := by
  have first : Ledger.performAll ⟨∅, 0⟩ (subscribeOps 0 .dispatching) = _ :=
    ledger_subscribeOps (by simp) .dispatching
  rw [Finset.union_empty] at first
  obtain ⟨resources, performed, keeps⟩ := Blocks.keeps_start.performAll first
  have same : (NestedConsumer.initial msg).resources = resources := by
    rw [NestedConsumer.initial, performed, Option.getD_some]
  exact
    { keeps := same ▸ keeps
      old := by simp [made, NestedConsumer.initial, Resource.call]
      here := fun _ => rfl
      before := List.forall_mem_nil _
      counted := Nat.zero_lt_one
      behind := List.forall_mem_nil _
      depth := rfl
      card := rfl
      dangling := by simp [made, NestedConsumer.initial, baseless] }

theorem Objects.alive_iff (objects : Objects events n owned) :
    n.alive = true ↔ .bev n.current ∈ owned :=
  (objects.keeps.leads _).symm

/-- The link tells which bufferevents are there. -/
theorem Objects.link_eq (objects : Objects events n owned) :
    n.link = if .bev n.current ∈ owned then (if n.established = true then .up else .connecting)
      else if .bev n.bevRes ∈ owned then .unconnectable else .freed := by
  simp only [link, alive, ← objects.keeps.leads]

theorem Objects.alive_iff_link (objects : Objects events n owned) :
    n.alive = true ↔ n.link = .connecting ∨ n.link = .up := by
  rw [objects.alive_iff, objects.link_eq]
  by_cases here : .bev n.current ∈ owned
  · by_cases established : n.established = true <;> simp [here, established]
  · by_cases there : .bev n.bevRes ∈ owned <;> simp [here, there]

/-- An event that has nothing to do with the objects. -/
theorem Objects.of_same (objects : Objects events n owned) {event : ConsumerEvent}
    {n' : NestedConsumer} (quiet : ∀ reason outcome, event ≠ .lost reason outcome)
    (resources : n'.resources = n.resources) (subscribed : n'.subscribed = n.subscribed)
    (current : n'.current = n.current) (outer : n'.outer = n.outer)
    (bevRes : n'.bevRes = n.bevRes) : Objects (events ++ [event]) n' owned := by
  have counts : reconnections (events ++ [event]) = reconnections events ∧
      refusals (events ++ [event]) = refusals events ∧
      freedBevs (events ++ [event]) = freedBevs events ∧
      baseless (events ++ [event]) = baseless events := by
    cases event with
    | lost reason outcome => exact absurd rfl (quiet reason outcome)
    | _ => simp [reconnections, refusals, freedBevs, baseless]
  obtain ⟨again, refused, freed, without⟩ := counts
  exact
    { keeps := resources ▸ objects.keeps
      old := subscribed ▸ objects.old
      here := by rw [current, bevRes]; exact objects.here
      before := by rw [outer, current]; exact objects.before
      counted := by rw [current, subscribed]; exact objects.counted
      behind := by rw [outer]; exact objects.behind
      depth := by rw [outer, again]; exact objects.depth
      card := by rw [again, refused, freed]; exact objects.card
      dangling := by rw [bevRes, without]; exact objects.dangling }

/-! ## The two consumers, event by event -/

/-- What holds of both after some events. -/
def Kept (events : List ConsumerEvent) (n : NestedConsumer) (c : Consumer) : Prop :=
  n.Shows c ∧ ∃ owned, n.Objects events owned

variable {c : Consumer} {nsqConfig : Option Bytes}

theorem Kept.initial (msg : NSQMsg) : Kept [] (.initial msg) (.initial msg) := by
  have objects := Objects.initial msg
  refine ⟨⟨rfl, rfl, ?_⟩, _, objects⟩
  rw [objects.link_eq]
  rfl

theorem Kept.connected (kept : Kept events n c) (nsqConfig : Option Bytes) :
    Option.Rel (Kept (events ++ [.connected])) (n.connected nsqConfig) (c.connected nsqConfig) := by
  obtain ⟨shows, owned, objects⟩ := kept
  have fresh : n.alive = true ∧ n.established = false ↔ c.link = .connecting := by
    rw [← shows.link, objects.link_eq, objects.alive_iff]
    by_cases here : .bev n.current ∈ owned
    · cases established : n.established <;> simp [here]
    · by_cases there : .bev n.bevRes ∈ owned <;> simp [here, there]
  rw [NestedConsumer.connected, Consumer.connected, if_congr fresh rfl rfl, shows.read]
  by_cases connecting : c.link = .connecting
  · rw [if_pos connecting, if_pos connecting]
    cases opening nsqConfig c.read.msg with
    | none => exact .none
    | some opened =>
        have alive := objects.alive_iff.mp (fresh.mpr connecting).1
        have objects' : Objects (events ++ [.connected])
            { n with
              read := { c.read with
                log := c.read.log ++ opened.1.map (.direct .extension) ++
                  opened.2.map (.buffered .extension) }
              established := true } owned :=
          objects.of_same (by rintro reason outcome ⟨⟩) rfl rfl rfl rfl rfl
        refine .some ⟨⟨rfl, shows.exception, ?_⟩, owned, objects'⟩
        rw [objects'.link_eq, if_pos alive, if_pos rfl]
  · rw [if_neg connecting, if_neg connecting]
    exact .none

theorem Kept.received (kept : Kept events n c) (call : ReadCall) (read : ReadState) :
    Kept (events ++ [.received call]) { n with read := read }
      { c with read := read, calls := c.calls ++ [call] } := by
  obtain ⟨shows, owned, objects⟩ := kept
  exact ⟨⟨rfl, shows.exception, shows.link⟩, owned,
    objects.of_same (by rintro reason outcome ⟨⟩) rfl rfl rfl rfl rfl⟩

/-- A message is taken from a queue that has a head. -/
theorem head_iff_effects {rdy : Int32} {run : CallbackRun} {exception exception' : Bool}
    {queue queue' : MessageQueue} {effects : List Effect}
    (processed : processMessageQueue rdy run exception queue =
      some (effects, exception', queue')) :
    queue.messageQueueHead = none ↔ effects.isEmpty = true := by
  rw [processMessageQueue, dequeueMessage] at processed
  cases head : queue.messageQueueHead with
  | none =>
      rw [head] at processed
      obtain rfl := (Prod.mk.inj (Option.some.inj processed)).1
      exact iff_of_true rfl rfl
  | some msg =>
      refine iff_of_false (Option.some_ne_none msg) ?_
      simp only [head] at processed
      cases cell : queue.heap msg with
      | none => simp [cell] at processed
      | some node =>
          simp only [cell, processBusinessMessage] at processed
          cases wrote : run.actions.mapM UserAction.effect with
          | none => simp [wrote] at processed
          | some issued =>
              simp only [wrote] at processed
              split at processed
              · cases processed
              · obtain rfl := (Prod.mk.inj (Option.some.inj processed)).1
                simp

theorem Kept.tick (kept : Kept events n c) (run : CallbackRun) :
    Option.Rel (Kept (events ++ [.tick run])) (n.tick run) (c.tick run) := by
  obtain ⟨shows, owned, objects⟩ := kept
  rw [NestedConsumer.tick, Consumer.tick, shows.read, shows.exception]
  cases processed : processMessageQueue c.read.msg.rdy run c.exception c.read.queue with
  | none => exact .none
  | some done =>
      obtain ⟨effects, exception, queue⟩ := done
      have head := head_iff_effects processed
      have freed : c.link = .freed ↔ .bev n.bevRes ∉ owned := by
        rw [← shows.link, objects.link_eq]
        by_cases here : .bev n.current ∈ owned
        · have there : .bev n.bevRes ∈ owned := by rwa [objects.here here]
          cases established : n.established <;> simp [here, there]
        · by_cases there : .bev n.bevRes ∈ owned <;> simp [here, there]
      have quiet : Kept (events ++ [.tick run])
          { n with
            read := { c.read with queue := queue, log := c.read.log ++ effects }
            exception := exception }
          { c with
            read := { c.read with queue := queue, log := c.read.log ++ effects }
            exception := exception } :=
        ⟨⟨rfl, rfl, shows.link⟩, owned,
          objects.of_same (by rintro reason outcome ⟨⟩) rfl rfl rfl rfl rfl⟩
      dsimp only
      by_cases empty : c.read.queue.messageQueueHead = none
      · rw [if_pos empty, if_neg (by simp [head.mp empty])]
        exact .some quiet
      · rw [if_neg empty]
        by_cases there : .bev n.bevRes ∈ owned
        · obtain ⟨block, leads⟩ :=
            Option.isSome_iff_exists.mp ((objects.keeps.leads _).mp there)
          have touched : n.resources.performAll [.touch (.bev n.bevRes)] = some n.resources :=
            Blocks.performAll_touch leads
          rw [touched, if_neg (by simp [freed, there])]
          exact .some quiet
        · rw [objects.keeps.performAll_eq_none (Ledger.performAll_touch_eq_none there),
            if_pos ⟨freed.mpr there, Bool.eq_false_iff.mpr fun quiet => empty (head.mpr quiet)⟩]
          exact .none

theorem call_of_made {call : ℕ} {outcome : Subscription} {resource : Resource}
    (member : resource ∈ made call outcome) : resource.call = call := by
  cases outcome with
  | noBase => cases member
  | refused =>
      simp only [made, Finset.mem_insert, Finset.mem_singleton] at member
      rcases member with rfl | rfl | rfl <;> rfl
  | dispatching =>
      simp only [made, Finset.mem_insert, Finset.mem_singleton] at member
      rcases member with rfl | rfl | rfl <;> rfl

namespace Objects

/-- What is there behind a loss was made before it or by the new call. -/
theorem call_lt (objects : Objects events n owned) {outcome : Subscription} {resource : Resource}
    (member : resource ∈ made n.subscribed outcome ∪ owned) : resource.call < n.subscribed + 1 := by
  rcases Finset.mem_union.mp member with new | before
  · exact (call_of_made new).trans_lt (Nat.lt_succ_self _)
  · exact Nat.lt_succ_of_lt (objects.old resource before)

theorem card_union (objects : Objects events n owned) {outcome : Subscription}
    (base : outcome ≠ .noBase) {rest : Finset Resource} (sub : rest ⊆ owned) :
    (made n.subscribed outcome ∪ rest).card = 3 + rest.card := by
  rw [Finset.card_union_of_disjoint, card_made _ base]
  rw [Finset.disjoint_left]
  intro resource new before
  exact (objects.old resource (sub before)).ne (call_of_made new)

/-- A bufferevent that has callbacks is the one in `arg->bev_res`, and is not freed. -/
theorem not_baseless (objects : Objects events n owned) (here : .bev n.current ∈ owned) :
    baseless events = false := by
  have there : .bev n.bevRes ∈ owned := by rwa [objects.here here]
  exact Bool.eq_false_iff.mpr fun without => objects.dangling.mpr without there

variable {resources : Blocks Resource} {rest : Finset Resource}

/-- The calls behind have other bufferevents. -/
theorem behind_ne (objects : Objects events n owned) {pair : ℕ × Loss} (member : pair ∈ n.outer) :
    Resource.bev pair.1 ≠ .bev n.current :=
  fun same => (objects.before pair member).ne (Resource.bev.inj same)

theorem behind_not_made (objects : Objects events n owned) {pair : ℕ × Loss}
    (member : pair ∈ n.outer) (outcome : Subscription) :
    Resource.bev pair.1 ∉ made n.subscribed outcome :=
  fun new => ((objects.before pair member).trans objects.counted).ne (call_of_made new)

/-- Another base is dispatched. -/
theorem redispatched (objects : Objects events n owned) (here : .bev n.current ∈ owned)
    (reason : Loss) (sub : rest ⊆ owned) (mine : .bev n.current ∈ rest ↔ reason = .eof)
    (others : ∀ resource ≠ .bev n.current, resource ∈ rest ↔ resource ∈ owned)
    (count : rest.card + freedBevs [.lost reason .dispatching] = owned.card)
    (keeps : resources.Keeps ⟨made n.subscribed .dispatching ∪ rest, 0⟩) :
    Objects (events ++ [.lost reason .dispatching])
      { n.register resources with
        subscribed := n.subscribed + 1
        current := n.subscribed
        outer := (n.current, reason) :: n.outer
        established := false } (made n.subscribed .dispatching ∪ rest) where
  keeps := keeps
  old := fun _ member => objects.call_lt (Finset.union_subset_union_right sub member)
  here := fun _ => rfl
  before := by
    intro pair member
    rcases List.mem_cons.mp member with rfl | outer
    · exact objects.counted
    · exact (objects.before pair outer).trans objects.counted
  counted := Nat.lt_succ_self _
  behind := by
    intro pair member
    rcases List.mem_cons.mp member with rfl | outer
    · have old : Resource.bev n.current ∉ made n.subscribed .dispatching :=
        fun new => objects.counted.ne (call_of_made new)
      rw [Finset.mem_union, or_iff_right old, mine]
    · rw [Finset.mem_union, or_iff_right (objects.behind_not_made outer _),
        others _ (objects.behind_ne outer), objects.behind pair outer]
  depth := by simp [reconnections, objects.depth]
  card := by
    have card := objects.card
    have again : reconnections [.lost reason .dispatching] = 1 := rfl
    have none : refusals [.lost reason .dispatching] = 0 := rfl
    rw [objects.card_union (by decide) sub, reconnections_append, refusals_append,
      freedBevs_append, again, none]
    omega
  dangling := by
    have before := objects.not_baseless here
    simp only [baseless] at before
    simp [register, made, baseless, before]

/-- No bufferevent could be connected. -/
theorem refused (objects : Objects events n owned) (here : .bev n.current ∈ owned)
    (keeps : resources.Keeps
      ⟨(made n.subscribed .refused ∪ owned).erase (.bev n.current), 0⟩) :
    Objects (events ++ [.lost .eof .refused])
      { n.register resources with subscribed := n.subscribed + 1, exception := true }
      ((made n.subscribed .refused ∪ owned).erase (.bev n.current)) where
  keeps := keeps
  old := fun _ member => objects.call_lt (Finset.mem_of_mem_erase member)
  here := fun member => absurd member (Finset.notMem_erase _ _)
  before := objects.before
  counted := objects.counted.trans (Nat.lt_succ_self _)
  behind := by
    intro pair outer
    rw [Finset.mem_erase, and_iff_right (objects.behind_ne outer), Finset.mem_union,
      or_iff_right (objects.behind_not_made outer _), objects.behind pair outer]
  depth := by simp [register, reconnections, objects.depth]
  card := by
    have card := objects.card
    have fewer := Finset.card_erase_add_one
      (Finset.mem_union_right (made n.subscribed .refused) here)
    have none : reconnections [.lost .eof .refused] = 0 := rfl
    have again : refusals [.lost .eof .refused] = 1 := rfl
    have freed : freedBevs [.lost .eof .refused] = 1 := rfl
    rw [objects.card_union (by decide) subset_rfl] at fewer
    rw [reconnections_append, refusals_append, freedBevs_append, none, again, freed]
    omega
  dangling := by
    have before := objects.not_baseless here
    have apart : n.subscribed ≠ n.current := (objects.old _ here).ne'
    simp only [baseless] at before
    simp [register, made, baseless, before, apart]

/-- There is no new base. -/
theorem baseless (objects : Objects events n owned) (here : .bev n.current ∈ owned)
    (keeps : resources.Keeps ⟨owned.erase (.bev n.current), 0⟩) :
    Objects (events ++ [.lost .eof .noBase])
      { n with subscribed := n.subscribed + 1, exception := true, resources := resources }
      (owned.erase (.bev n.current)) where
  keeps := keeps
  old := fun resource member =>
    Nat.lt_succ_of_lt (objects.old resource (Finset.mem_of_mem_erase member))
  here := fun member => absurd member (Finset.notMem_erase _ _)
  before := objects.before
  counted := objects.counted.trans (Nat.lt_succ_self _)
  behind := by
    intro pair outer
    rw [Finset.mem_erase, and_iff_right (objects.behind_ne outer), objects.behind pair outer]
  depth := by simp [reconnections, objects.depth]
  card := by
    have card := objects.card
    have fewer := Finset.card_erase_add_one here
    have none : reconnections [.lost .eof .noBase] = 0 := rfl
    have none' : refusals [.lost .eof .noBase] = 0 := rfl
    have freed : freedBevs [.lost .eof .noBase] = 1 := rfl
    rw [reconnections_append, refusals_append, freedBevs_append, none, none', freed]
    omega
  dangling := by simp [PhpNsq.baseless, objects.here here]

end Objects

/-- Another connection, on the bufferevent of the base that is dispatched now. -/
theorem reconnects (objects : Objects events n owned) (shows : n.Shows c)
    (here : .bev n.current ∈ owned) (reason : Loss) {rest : Finset Resource} (sub : rest ⊆ owned)
    (mine : .bev n.current ∈ rest ↔ reason = .eof)
    (others : ∀ resource ≠ .bev n.current, resource ∈ rest ↔ resource ∈ owned)
    (count : rest.card + freedBevs [.lost reason .dispatching] = owned.card)
    {resources : Blocks Resource}
    (keeps : resources.Keeps ⟨made n.subscribed .dispatching ∪ rest, 0⟩) :
    Kept (events ++ [.lost reason .dispatching])
      { n.register resources with
        subscribed := n.subscribed + 1
        current := n.subscribed
        outer := (n.current, reason) :: n.outer
        established := false } (c.reconnect .connecting) := by
  have objects' := objects.redispatched here reason sub mine others count keeps
  refine ⟨⟨congrArg ReadState.disconnected shows.read, shows.exception, ?_⟩, _, objects'⟩
  rw [objects'.link_eq, if_pos]
  · rfl
  · exact Finset.mem_union_left _ (by simp [made])

theorem Kept.lost (kept : Kept events n c) (reason : Loss) (outcome : Subscription) :
    Option.Rel (Kept (events ++ [.lost reason outcome])) (n.lost reason outcome)
      (c.lost reason outcome) := by
  obtain ⟨shows, owned, objects⟩ := kept
  have linked : n.alive = true ↔ c.link = .connecting ∨ c.link = .up := by
    rw [← shows.link, objects.alive_iff_link]
  rw [NestedConsumer.lost, Consumer.lost.eq_def]
  by_cases alive : n.alive = true
  · rw [if_pos alive, if_pos (linked.mp alive)]
    have here := objects.alive_iff.mp alive
    have new : ∀ resource ∈ owned, resource.call ≠ n.subscribed :=
      fun resource member => (objects.old resource member).ne
    have ledger := ledger_lossOps here new reason outcome
    cases outcome with
    | dispatching =>
        cases reason with
        | eof =>
            obtain ⟨resources, performed, keeps⟩ := objects.keeps.performAll ledger
            rw [performed]
            exact .some (reconnects objects shows here .eof subset_rfl (iff_of_true here rfl)
              (fun _ _ => Iff.rfl) rfl keeps)
        | error =>
            obtain ⟨resources, performed, keeps⟩ := objects.keeps.performAll ledger
            rw [performed]
            exact .some (reconnects objects shows here .error (Finset.erase_subset _ _) (by simp)
              (fun _ different => by rw [Finset.mem_erase, and_iff_right different])
              (Finset.card_erase_add_one here) keeps)
    | refused =>
        cases reason with
        | eof =>
            obtain ⟨resources, performed, keeps⟩ := objects.keeps.performAll ledger
            rw [performed]
            have objects' := objects.refused here keeps
            have apart : n.subscribed ≠ n.current := (objects.old _ here).ne'
            have there : .bev n.subscribed ∈
                (made n.subscribed .refused ∪ owned).erase (.bev n.current) := by
              simp [made, apart]
            have unconnectable :=
              objects'.link_eq.trans ((if_neg (Finset.notMem_erase _ _)).trans (if_pos there))
            exact .some ⟨⟨congrArg ReadState.disconnected shows.read, rfl, unconnectable⟩, _,
              objects'⟩
        | error =>
            rw [objects.keeps.performAll_eq_none ledger]
            exact .none
    | noBase =>
        cases reason with
        | eof =>
            rw [made, Finset.empty_union] at ledger
            obtain ⟨resources, performed, keeps⟩ := objects.keeps.performAll ledger
            rw [performed]
            have objects' := objects.baseless here keeps
            have gone : .bev n.bevRes ∉ owned.erase (.bev n.current) := by
              rw [objects.here here]
              exact Finset.notMem_erase _ _
            have freed :=
              objects'.link_eq.trans ((if_neg (Finset.notMem_erase _ _)).trans (if_neg gone))
            exact .some ⟨⟨shows.read, rfl, freed⟩, _, objects'⟩
        | error =>
            rw [objects.keeps.performAll_eq_none ledger]
            exact .none
  · rw [if_neg alive, if_neg (mt linked.mpr alive)]
    exact .none

/-- A step of a consumer is one of the nested one. -/
theorem Kept.nests (kept : Kept events n c) {malloc : Malloc} {event : ConsumerEvent}
    {c' : Consumer} (step : Consumes malloc nsqConfig c event c') :
    ∃ n', Nests malloc nsqConfig n event n' ∧ Kept (events ++ [event]) n' c' := by
  cases event with
  | connected => exact exists_of_rel_some (kept.connected nsqConfig) step
  | received call =>
      obtain ⟨up, read, returns, rfl⟩ := step
      have link := kept.1.link.trans up
      obtain ⟨owned, objects⟩ := kept.2
      have alive := objects.alive_iff_link.mpr (.inr link)
      refine ⟨_, ⟨alive, ?_, read, by rwa [kept.1.read], rfl⟩, kept.received call read⟩
      rw [NestedConsumer.link, if_pos alive] at link
      split at link
      · assumption
      · cases link
  | tick run => exact exists_of_rel_some (kept.tick run) step
  | lost reason outcome => exact exists_of_rel_some (kept.lost reason outcome) step

/-- And the other way round. -/
theorem Kept.consumes (kept : Kept events n c) {malloc : Malloc} {event : ConsumerEvent}
    {n' : NestedConsumer} (step : Nests malloc nsqConfig n event n') :
    ∃ c', Consumes malloc nsqConfig c event c' ∧ Kept (events ++ [event]) n' c' := by
  cases event with
  | connected => exact exists_of_some_rel (kept.connected nsqConfig) step
  | received call =>
      obtain ⟨alive, established, read, returns, rfl⟩ := step
      have up : c.link = .up := by
        rw [← kept.1.link, NestedConsumer.link, if_pos alive, if_pos established]
      exact ⟨_, ⟨up, read, by rwa [← kept.1.read], rfl⟩, kept.received call read⟩
  | tick run => exact exists_of_some_rel (kept.tick run) step
  | lost reason outcome => exact exists_of_some_rel (kept.lost reason outcome) step

end NestedConsumer

/-- **The nested event loops of a consumer.** A consumer that keeps the stack and every object of
libevent, and has no step that frees an object twice or uses it after it was freed, has the same
runs as one that only keeps its link. The loops are nested as deep as there were reconnections, and
nothing but bufferevents is ever freed. Of the connections behind, those that were lost by an error
have none any more, so a callback must not use a resource that it kept from them. The one in
`arg->bev_res` was freed exactly if a connection was lost and there was no event base for a new one;
and one is freed twice exactly if a connection is lost by an error and `subscribe` fails. -/
theorem nested_dispatch (malloc : Malloc) (nsqConfig : Option Bytes) (msg : NSQMsg)
    (events : List ConsumerEvent) :
    (∀ c, Run (Consumes malloc nsqConfig) (.initial msg) events c →
      ∃ n, Run (Nests malloc nsqConfig) (.initial msg) events n ∧ n.Shows c) ∧
    ∀ n, Run (Nests malloc nsqConfig) (.initial msg) events n →
      (∃ c, Run (Consumes malloc nsqConfig) (.initial msg) events c ∧ n.Shows c) ∧
      n.outer.length = reconnections events ∧
      n.resources.live.card + freedBevs events =
        3 * (1 + reconnections events + refusals events) ∧
      (n.resources.target (.bev n.bevRes) = none ↔ baseless events = true) ∧
      (∀ pair ∈ n.outer, n.resources.target (.bev pair.1) = none ↔ pair.2 = .error) ∧
      (n.alive = true → ∀ reason outcome,
        n.resources.performAll (lossOps n.current n.subscribed reason outcome) = none ↔
          reason = .error ∧ outcome ≠ .dispatching) := by
  refine ⟨fun c run => ?_, fun n run => ?_⟩
  · obtain ⟨n, nested, kept⟩ := run.invariant
      (fun taken c => ∃ n, Run (Nests malloc nsqConfig) (.initial msg) taken n ∧
        NestedConsumer.Kept taken n c)
      (fun taken c event c' here one => by
        obtain ⟨n, nested, kept⟩ := here
        obtain ⟨n', step, kept'⟩ := kept.nests one
        exact ⟨n', run_append.mpr ⟨n, nested, run_singleton.mpr step⟩, kept'⟩)
      ⟨_, rfl, .initial msg⟩
    exact ⟨n, nested, kept.1⟩
  · obtain ⟨c, consumed, shows, owned, objects⟩ := run.invariant
      (fun taken n => ∃ c, Run (Consumes malloc nsqConfig) (.initial msg) taken c ∧
        NestedConsumer.Kept taken n c)
      (fun taken n event n' here one => by
        obtain ⟨c, consumed, kept⟩ := here
        obtain ⟨c', step, kept'⟩ := kept.consumes one
        exact ⟨c', run_append.mpr ⟨c, consumed, run_singleton.mpr step⟩, kept'⟩)
      ⟨_, rfl, .initial msg⟩
    have gone : ∀ resource, n.resources.target resource = none ↔ resource ∉ owned := fun resource =>
      by rw [objects.keeps.leads, Option.not_isSome_iff_eq_none]
    refine ⟨⟨c, consumed, shows⟩, objects.depth, ?_, ?_, fun pair outer => ?_,
      fun alive reason outcome => ?_⟩
    · rw [objects.keeps.count, Nat.add_zero, objects.card]
    · rw [gone, objects.dangling]
    · rw [gone, objects.behind pair outer]
      cases pair.2 <;> simp
    · have ledger := ledger_lossOps (objects.alive_iff.mp alive)
        (fun resource member => (objects.old resource member).ne) reason outcome
      rw [objects.keeps.performAll_eq_none_iff, ledger]
      cases reason <;> cases outcome <;> simp

/-- Two connections have six objects of libevent, all of them still there. -/
theorem nested_dispatch_cleanEvents :
    ∃ n, Run (Nests granted none) (.initial settings) cleanEvents n ∧ n.outer.length = 1 ∧
      n.resources.live.card = 6 := by
  obtain ⟨up, idle⟩ := (Consumer.Idle.initial settings).opened opening_settings
  obtain ⟨read, returns, idle⟩ := idle.received [greeting] (by decide)
  have new := idle.reconnect .connecting
  obtain ⟨up', idle⟩ := new.opened opening_settings
  obtain ⟨read', returns', -⟩ := idle.received [heartbeat] (by decide)
  have run : Run (Consumes granted none) (.initial settings) cleanEvents _ :=
    ⟨_, up, _, ⟨rfl, read, returns, rfl⟩, _, rfl, _, up', _, ⟨rfl, read', returns', rfl⟩, rfl⟩
  obtain ⟨nests, objects⟩ := nested_dispatch granted none settings cleanEvents
  obtain ⟨n, nested, -⟩ := nests _ run
  obtain ⟨-, depth, card, -⟩ := objects n nested
  exact ⟨n, nested, depth, card⟩

end PhpNsq

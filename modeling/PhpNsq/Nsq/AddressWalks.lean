import PhpNsq.Foundations.Walks
import PhpNsq.Nsq.Timeouts

/-!
# The walks over the array of addresses

`Nsq::connectNsqd` keeps its addresses in an array of `nsqd_connect_config`, and three loops go
over it with a pointer. The fill loop goes up and stops on the last entry. From there
`connect_nsqd` goes down with its own copy of the pointer, and when it comes back, the
release loop goes down once more and stops on the start of the array.

Each loop moves the pointer behind every pass but its last. `connect_nsqd` does so in front of
`connect`, so a refusal changes nothing about it, and when it leaves early or with `exit(1)`
the pointer of the caller has not moved.

A call walks well (`AddressWalks`) when the loops visit every entry of the array once and nothing
outside of it, and this is so for every call (`address_walks`).
-/

set_option autoImplicit false

namespace PhpNsq

open Foundations

/-- The entries that the fill loop stores to. -/
def fillVisits (addresses : List NsqdConnectConfig) : List ℤ :=
  visits (fun s address => some (Filling.add addresses.length s address))
    Filling.connectConfigArr ⟨fun _ => none, 0, 0⟩ addresses

/-- The locals of the connect loop, with the pointer that the fill loop left. -/
def connectStart (self : Nsq) (addresses : List NsqdConnectConfig) (memory : Cells ℤ) :
    Connecting :=
  ⟨0, memory, (fill addresses).connectConfigArr, nsqConfTimeout self, []⟩

/-- The entries that the connect loop uses. -/
def connectVisits (self : Nsq) (addresses : List NsqdConnectConfig) (memory : Cells ℤ)
    (answers : List Attempt) : List ℤ :=
  visits (Connecting.attempt self.nsqConfig (fill addresses).entries addresses.length)
    Connecting.connectConfigArr (connectStart self addresses memory) answers

/-- The address of a `connect`. -/
def NsqEffect.attempted : NsqEffect → Option NsqdConnectConfig
  | .connect _ config _ => some config
  | _ => none

/-- The entry whose host and port are freed. -/
def NsqEffect.freedEntry : NsqEffect → Option ℤ
  | .freeConfig index => some index
  | _ => none

/-- The entry that the pointer leads to when the array is freed. -/
def NsqEffect.freedArray : NsqEffect → Option ℤ
  | .freeConfigs index => some index
  | _ => none

/-- **The walks of a call**, for an object with connections or without. -/
structure AddressWalks (self : Nsq) (addresses : List NsqdConnectConfig) (memory : Cells ℤ)
    (answers : List Attempt) : Prop where
  stores : WalksOnce (fillVisits addresses) (fun i => i) addresses.length
  entries : ∀ index : ℤ,
    (fill addresses).entries index = if 0 ≤ index then addresses[index.toNat]? else none
  handed : (fill addresses).connectConfigArr = ((addresses.length - 1 : ℕ) : ℤ)
  /-- Only `exit(1)` behind a host that does not resolve keeps a call from returning. -/
  returns : (∃ result, self.connectNsqd addresses memory answers = some result) ↔
    self.nsqdConnectionFds ≠ none ∨
      answers.length = addresses.length ∧ ∀ answer ∈ answers, answer.resolves = true
  /-- As far as the attempts go, they use the entries from the last one downwards. -/
  attempts : answers.length ≤ addresses.length →
    connectVisits self addresses memory answers <+:
      (List.range answers.length).map fun i : ℕ => (addresses.length : ℤ) - 1 - i
  connects : ∀ result, self.nsqdConnectionFds = none →
    self.connectNsqd addresses memory answers = some result →
    WalksOnce (connectVisits self addresses memory answers)
        (fun i => (addresses.length : ℤ) - 1 - i) addresses.length ∧
      result.effects.filterMap NsqEffect.attempted = addresses.reverse
  /-- `connect_nsqd` leaves early. -/
  early : ∀ result, self.nsqdConnectionFds ≠ none →
    self.connectNsqd addresses memory answers = some result →
    result.effects.filterMap NsqEffect.attempted = []
  releases : ∀ result, self.connectNsqd addresses memory answers = some result →
    WalksOnce (result.effects.filterMap NsqEffect.freedEntry)
        (fun i => (addresses.length : ℤ) - 1 - i) addresses.length ∧
      result.effects.filterMap NsqEffect.freedArray = [0] ∧
      result.effects.getLast? = some (.freeConfigs 0)

/-! ## The fill loop -/

section Fill

variable {addresses : List NsqdConnectConfig}

/-- After some passes the pointer is on the next entry, if there is one. -/
def Filling.Walks (count passes : ℕ) (s : Filling) : Prop :=
  s.j = passes ∧ s.connectConfigArr = (min passes (count - 1) : ℕ)

theorem Filling.Walks.next {count passes : ℕ} {s : Filling} (walks : s.Walks count passes)
    (address : NsqdConnectConfig) : (Filling.add count s address).Walks count (passes + 1) := by
  obtain ⟨place, pointer⟩ := walks
  refine ⟨congrArg (· + 1) place, ?_⟩
  change (if s.j + 1 < count then s.connectConfigArr + 1 else s.connectConfigArr) = _
  rw [place, pointer]
  split
  · omega
  · omega

/-- **The `i`-th address** is stored to entry `i`. -/
theorem fillVisits_eq (addresses : List NsqdConnectConfig) :
    fillVisits addresses = (List.range addresses.length).map fun i : ℕ => (i : ℤ) := by
  refine visits_eq (Filling.Walks addresses.length) ?_ ?_ ⟨rfl, by simp⟩ le_rfl List.foldlM_pure
  · rintro passes s inside ⟨-, pointer⟩
    rw [pointer, min_eq_left (by omega)]
  · rintro passes s address next walks one
    obtain rfl := Option.some.inj one
    exact walks.next address

/-- In front of the array nothing is stored. -/
theorem fill_outside (addresses : List NsqdConnectConfig) {index : ℤ} (outside : index < 0) :
    (fill addresses).entries index = none := by
  have kept : 0 ≤ (fill addresses).connectConfigArr ∧ (fill addresses).entries index = none := by
    refine List.foldlRecOn (motive := fun s : Filling =>
      0 ≤ s.connectConfigArr ∧ s.entries index = none) _ _ ⟨le_rfl, rfl⟩ ?_
    rintro s ⟨inside, nothing⟩ address -
    constructor
    · change 0 ≤ if s.j + 1 < addresses.length then s.connectConfigArr + 1 else s.connectConfigArr
      split
      · omega
      · exact inside
    · exact (Function.update_of_ne (by omega) _ _).trans nothing
  exact kept.2

theorem fill_entries (addresses : List NsqdConnectConfig) (index : ℤ) :
    (fill addresses).entries index = if 0 ≤ index then addresses[index.toNat]? else none := by
  split
  · next inside =>
      have entry := (fill_eq addresses).1 index.toNat
      rwa [Int.toNat_of_nonneg inside] at entry
  · next outside => exact fill_outside addresses (not_le.mp outside)

end Fill

/-! ## The connect loop -/

section Connect

variable {self : Nsq} {addresses : List NsqdConnectConfig} {memory : Cells ℤ}
  {answers : List Attempt} {s : Connecting}

/-- The pointer that `connect_nsqd` is handed. -/
theorem connectStart_walks (self : Nsq) (addresses : List NsqdConnectConfig) (memory : Cells ℤ) :
    (connectStart self addresses memory).Walks addresses.length 0 :=
  ⟨rfl, (fill_eq addresses).2⟩

theorem Connecting.Walks.at_place {count passes : ℕ} (inside : passes < count)
    (walks : s.Walks count passes) : s.connectConfigArr = (count : ℤ) - 1 - passes := by
  rw [walks.2]
  omega

/-- **The `i`-th attempt** uses the entry `i` before the last, whether others are refused or not. -/
theorem connectVisits_within (within : answers.length ≤ addresses.length) :
    connectVisits self addresses memory answers <+:
      (List.range answers.length).map fun i : ℕ => (addresses.length : ℤ) - 1 - i :=
  visits_within (Connecting.Walks addresses.length)
    (fun _ _ inside walks => walks.at_place inside) (fun _ _ _ _ walks one => walks.next one)
    (connectStart_walks self addresses memory) within

/-- When the connect loop comes to its end, they are all entries. -/
theorem connectVisits_eq (length : answers.length = addresses.length)
    (loop : answers.foldlM
      (Connecting.attempt self.nsqConfig (fill addresses).entries addresses.length)
      (connectStart self addresses memory) = some s) :
    connectVisits self addresses memory answers =
      (List.range addresses.length).map fun i : ℕ => (addresses.length : ℤ) - 1 - i := by
  have all : connectVisits self addresses memory answers = _ :=
    visits_eq (Connecting.Walks addresses.length)
      (fun _ _ inside walks => walks.at_place inside) (fun _ _ _ _ walks one => walks.next one)
      (connectStart_walks self addresses memory) length.le loop
  rwa [length] at all

/-- Behind its `connect` a pass connects to nothing. -/
theorem attempted_behind {nsqConfig : Option Bytes} {timeout : Timeval} {answer : Attempt} :
    (if answer.connects then connected nsqConfig timeout answer.socket
      else [.errorHandlings (ascii "connect() error")]).filterMap NsqEffect.attempted = [] := by
  rw [List.filterMap_eq_nil_iff]
  split
  · exact forall_mem_connected rfl rfl rfl fun _ => rfl
  · exact List.forall_mem_singleton.mpr rfl

/-- A pass connects to the address of its entry. -/
theorem attempted_attempting (nsqConfig : Option Bytes) (timeout : Timeval)
    (config : NsqdConnectConfig) (answer : Attempt) :
    (attempting nsqConfig timeout config answer).filterMap NsqEffect.attempted = [config] := by
  rw [attempting, List.filterMap_append, attempted_behind, List.append_nil, connecting]
  by_cases failed : answer.socket = -1
  · cases timeout.isSet with
    | true => rw [if_pos failed, if_pos rfl]; rfl
    | false => rw [if_pos failed, if_neg Bool.false_ne_true]; rfl
  · cases timeout.isSet with
    | true => rw [if_neg failed, if_pos rfl]; rfl
    | false => rw [if_neg failed, if_neg Bool.false_ne_true]; rfl

/-- It frees nothing. -/
theorem attempting_frees {nsqConfig : Option Bytes} {timeout : Timeval}
    {config : NsqdConnectConfig} {answer : Attempt} :
    ∀ effect ∈ attempting nsqConfig timeout config answer,
      effect.freedEntry = none ∧ effect.freedArray = none := by
  refine List.forall_mem_append.mpr
    ⟨forall_mem_connecting ⟨rfl, rfl⟩ ⟨rfl, rfl⟩ ⟨rfl, rfl⟩ ⟨rfl, rfl⟩, ?_⟩
  split
  · exact forall_mem_connected ⟨rfl, rfl⟩ ⟨rfl, rfl⟩ ⟨rfl, rfl⟩ fun _ => ⟨rfl, rfl⟩
  · exact List.forall_mem_singleton.mpr ⟨rfl, rfl⟩

/-- **The connect loop** connects to the addresses from the last to the first, and frees nothing. -/
theorem attempted_loop (length : answers.length ≤ addresses.length)
    (loop : answers.foldlM
      (Connecting.attempt self.nsqConfig (fill addresses).entries addresses.length)
      (connectStart self addresses memory) = some s) :
    s.effects.filterMap NsqEffect.attempted = addresses.reverse.take answers.length ∧
      ∀ effect ∈ s.effects, effect.freedEntry = none ∧ effect.freedArray = none := by
  have along : s.Walks addresses.length answers.length ∧
      s.effects.filterMap NsqEffect.attempted = addresses.reverse.take answers.length ∧
      ∀ effect ∈ s.effects, effect.freedEntry = none ∧ effect.freedArray = none := by
    apply (foldlM_eq_some_iff.mp loop).invariant_within (fun taken s =>
      s.Walks addresses.length taken.length ∧
      s.effects.filterMap NsqEffect.attempted = addresses.reverse.take taken.length ∧
      ∀ effect ∈ s.effects, effect.freedEntry = none ∧ effect.freedArray = none)
    · rintro taken answer rest state next rfl ⟨walks, tried, kept⟩ one
      rw [List.length_append, List.length_cons] at length
      obtain ⟨config, entry, effects⟩ := Connecting.attempt_effects one
      rw [walks.2, (fill_eq addresses).1] at entry
      have reversed : addresses.reverse[taken.length]? = some config := by
        rw [List.getElem?_reverse (by omega), entry]
      rw [List.length_append, List.length_singleton]
      refine ⟨walks.next one, ?_, ?_⟩
      · rw [effects, List.filterMap_append, tried, attempted_attempting, List.take_add_one,
          reversed]
        rfl
      · rw [effects]
        exact List.forall_mem_append.mpr ⟨kept, attempting_frees⟩
    · exact ⟨connectStart_walks self addresses memory, rfl, List.forall_mem_nil _⟩
  exact along.2

end Connect

/-! ## The call -/

section Call

variable {self : Nsq} {addresses : List NsqdConnectConfig} {memory : Cells ℤ}
  {answers : List Attempt} {result : CallResult}

/-- A call does what `connect_nsqd` does, and releases the addresses. -/
theorem Nsq.connectNsqd_released
    (done : self.connectNsqd addresses memory answers = some result) :
    ∃ before, result.effects =
        before ++ release (fill addresses).connectConfigArr addresses.length ∧
      (∀ effect ∈ before, effect.freedEntry = none ∧ effect.freedArray = none) ∧
      (self.nsqdConnectionFds ≠ none → before = []) ∧
      (self.nsqdConnectionFds = none →
        connectVisits self addresses memory answers =
          (List.range addresses.length).map (fun i : ℕ => (addresses.length : ℤ) - 1 - i) ∧
        before.filterMap NsqEffect.attempted = addresses.reverse) := by
  cases free : self.nsqdConnectionFds with
  | none =>
      have length := ((Nsq.connectNsqd_isSome free).mp ⟨result, done⟩).1
      rw [Nsq.connectNsqd_free free length, ← (fill_eq addresses).2] at done
      obtain ⟨s, loop, rfl⟩ := Option.map_eq_some_iff.mp done
      obtain ⟨tried, kept⟩ := attempted_loop length.le loop
      rw [length, List.take_of_length_le (List.length_reverse ..).le] at tried
      exact ⟨s.effects, rfl, kept, fun taken => absurd rfl taken,
        fun _ => ⟨connectVisits_eq length loop, tried⟩⟩
  | some fds =>
      obtain ⟨value, early⟩ := Nsq.connectNsqd_early free
      obtain rfl := Option.some.inj (early.symm.trans done)
      exact ⟨[], rfl, List.forall_mem_nil _, fun _ => rfl, fun none => by cases none⟩

/-- The release loop, from where the fill loop left the pointer. -/
theorem release_filled (addresses : List NsqdConnectConfig) :
    release (fill addresses).connectConfigArr addresses.length =
      ((List.range addresses.length).map fun i : ℕ => (addresses.length : ℤ) - 1 - i).map
        .freeConfig ++ [.freeConfigs 0] := by
  rw [release_eq, (fill_eq addresses).2, sub_self, List.map_map]
  refine congrArg (· ++ _) (List.map_congr_left ?_)
  intro i member
  have inside := List.mem_range.mp member
  have place : ((addresses.length - 1 : ℕ) : ℤ) - i = addresses.length - 1 - i := by omega
  exact congrArg NsqEffect.freeConfig place

theorem filterMap_freeConfig (indices : List ℤ) :
    (indices.map NsqEffect.freeConfig).filterMap NsqEffect.attempted = [] ∧
      (indices.map NsqEffect.freeConfig).filterMap NsqEffect.freedEntry = indices ∧
      (indices.map NsqEffect.freeConfig).filterMap NsqEffect.freedArray = [] := by
  induction indices with
  | nil => exact ⟨rfl, rfl, rfl⟩
  | cons index indices ih => exact ⟨ih.1, congrArg (index :: ·) ih.2.1, ih.2.2⟩

/-- **The walks over the array of addresses**, in every call of `connectNsqd`. -/
theorem address_walks (self : Nsq) (addresses : List NsqdConnectConfig) (memory : Cells ℤ)
    (answers : List Attempt) : AddressWalks self addresses memory answers where
  stores := .up (fillVisits_eq addresses)
  entries := fill_entries addresses
  handed := (fill_eq addresses).2
  returns := by
    cases free : self.nsqdConnectionFds with
    | none =>
        rw [Nsq.connectNsqd_isSome free]
        simp
    | some fds =>
        obtain ⟨value, early⟩ := Nsq.connectNsqd_early free
        exact iff_of_true ⟨_, early⟩ (.inl (Option.some_ne_none fds))
  attempts := connectVisits_within
  connects := by
    intro result free done
    obtain ⟨before, effects, -, -, walked⟩ := Nsq.connectNsqd_released done
    obtain ⟨visited, tried⟩ := walked free
    refine ⟨.down visited, ?_⟩
    rw [effects, List.filterMap_append, tried, release_filled, List.filterMap_append,
      (filterMap_freeConfig _).1]
    exact List.append_nil _
  early := by
    intro result taken done
    obtain ⟨before, effects, -, nothing, -⟩ := Nsq.connectNsqd_released done
    rw [effects, nothing taken, release_filled, List.nil_append, List.filterMap_append,
      (filterMap_freeConfig _).1]
    rfl
  releases := by
    intro result done
    obtain ⟨before, effects, kept, -, -⟩ := Nsq.connectNsqd_released done
    have entries : before.filterMap NsqEffect.freedEntry = [] :=
      List.filterMap_eq_nil_iff.mpr fun effect member => (kept effect member).1
    have arrays : before.filterMap NsqEffect.freedArray = [] :=
      List.filterMap_eq_nil_iff.mpr fun effect member => (kept effect member).2
    obtain ⟨-, freed, none_before⟩ := filterMap_freeConfig
      ((List.range addresses.length).map fun i : ℕ => (addresses.length : ℤ) - 1 - i)
    rw [effects, release_filled]
    refine ⟨.down ?_, ?_, ?_⟩
    · rw [List.filterMap_append, entries, List.filterMap_append, freed]
      exact List.append_nil _
    · rw [List.filterMap_append, arrays, List.filterMap_append, none_before]
      rfl
    · rw [← List.append_assoc, List.getLast?_concat]

end Call

end PhpNsq

import Mathlib.Algebra.Order.BigOperators.Group.List
import PhpNsq.Foundations.CopiedStrings
import PhpNsq.Nsq.Addresses

/-!
# The copies of the addresses

`Nsq::connectNsqd` asks for as many bytes as host and port have, and copies them there with `strcpy`,
which stores a NUL behind them (`addressCopies_overrun`). What becomes of that NUL depends on the
allocator. A block that is larger than what was asked for has room for it. Otherwise the NUL
comes to stand in the byte behind the block, where it can be overwritten before `connect_nsqd` comes
to read the address; and then the text goes on with what follows.

So the addresses go from their texts to `connect` unchanged when the allocator's blocks have room for
all these NULs, and only then is that certain (`connects_to_texts`). With blocks of a multiple of
eight bytes there is no room for a host of eight characters (`copiesFit_eights`).
-/

set_option autoImplicit false

namespace PhpNsq

open Foundations

/-- The sizes of the buffers of a pass, each with the number of bytes that `strcpy` stores there. -/
def addressCopies (val : Bytes) : List (ℕ × ℕ) :=
  (phpExplode 58 val).map fun part => (part.length, (cString part).length + 1)

/-- The blocks that the allocator gives have room for what is stored, given how large a block is that
was asked for with a size. -/
def CopiesFit (usable : ℕ → ℕ) (val : Bytes) : Prop :=
  ∀ copy ∈ addressCopies val, copy.2 ≤ usable copy.1

/-- The blocks that `emalloc` gives for host and port in each pass of the fill loop. -/
structure ConfigBlocks where
  host : ℕ → ℕ
  port : ℕ → ℕ

/-- The blocks with the memory around them: in front of the fill loop, and when `connect_nsqd` comes
to an entry. -/
structure AddressHeap extends ConfigBlocks where
  before : Cells UInt8
  memory : ℕ → Cells UInt8
  mapped : ℕ

/-- The copies of a pass. -/
def ConfigBlocks.copiesOf (usable : ℕ → ℕ) (blocks : ConfigBlocks) (val : Bytes) (pass : ℕ) :
    List StringCopy :=
  match phpExplode 58 val with
  | [host, port] =>
      [⟨blocks.host pass, usable host.length, cString host⟩,
        ⟨blocks.port pass, usable port.length, cString port⟩]
  | _ => []

/-- The copies of the fill loop. -/
def ConfigBlocks.copies (usable : ℕ → ℕ) (blocks : ConfigBlocks) (vals : List Bytes) :
    List StringCopy :=
  vals.zipIdx.flatMap fun (val, pass) => blocks.copiesOf usable val pass

/-- What `connect_nsqd` reads of an entry. -/
def AddressHeap.config (heap : AddressHeap) (entry : ℕ) : Option NsqdConnectConfig :=
  match stringAt (heap.memory entry) heap.mapped (heap.host entry),
      stringAt (heap.memory entry) heap.mapped (heap.port entry) with
  | some host, some port => some ⟨host, port⟩
  | _, _ => none

/-- What it reads of all entries. -/
def AddressHeap.configs (heap : AddressHeap) (vals : List Bytes) :
    Option (List NsqdConnectConfig) :=
  vals.zipIdx.mapM fun (_, entry) => heap.config entry

/-- `Nsq::connectNsqd` for the strings that it is given. `connect_nsqd` reads what was copied when the
object has no connections. It does not come back from a text that goes on to the end of the
memory. -/
def Nsq.connectNsqdStrings (self : Nsq) (vals : List Bytes) (heap : AddressHeap) (memory : Cells ℤ)
    (answers : List Attempt) : Option CallResult :=
  match vals.mapM nsqdConnectConfig, self.nsqdConnectionFds with
  | none, _ => some ⟨[], self, .faulted .nullDereference⟩
  | some addresses, some _ => self.connectNsqd addresses memory answers
  | some _, none =>
      (heap.configs vals).bind fun addresses => self.connectNsqd addresses memory answers

/-- **What an allocator promises**: blocks of its sizes, that lie apart, and that nobody else stores
in. Of the other bytes nothing is known. -/
structure AddressHeap.Sound (usable : ℕ → ℕ) (heap : AddressHeap) (vals : List Bytes) : Prop where
  apart : (heap.copies usable vals).Pairwise StringCopy.Apart
  inside : ∀ copy ∈ heap.copies usable vals, copy.block + copy.size ≤ heap.mapped
  kept : ∀ entry, ∀ copy ∈ heap.copies usable vals, ∀ address, copy.Covers address →
    heap.memory entry address = copied heap.before (heap.copies usable vals) address

/-! ## Sizes -/

/-- Without a NUL in it, **`strcpy` overruns the buffers** of host and port by its terminator. -/
theorem addressCopies_overrun {val : Bytes} (free : (0 : UInt8) ∉ val) :
    ∀ copy ∈ addressCopies val, copy.2 = copy.1 + 1 := by
  have whole : ∀ part ∈ phpExplode 58 val, (0 : UInt8) ∉ part := by
    rw [phpExplode]
    cases found : cutLine 58 val with
    | none => exact List.forall_mem_singleton.mpr free
    | some parts =>
        obtain ⟨rfl, -⟩ := eq_of_cutLine found
        rw [List.mem_append, List.mem_cons, not_or, not_or] at free
        exact List.forall_mem_cons.mpr ⟨free.1, List.forall_mem_singleton.mpr free.2.2⟩
  refine List.forall_mem_map.mpr fun part member => ?_
  rw [cString_of_notMem (whole part member)]

section Reading

variable {usable : ℕ → ℕ} {blocks : ConfigBlocks} {heap : AddressHeap} {vals : List Bytes}
  {val host port : Bytes} {pass : ℕ}

theorem copiesFit_iff (cut : phpExplode 58 val = [host, port]) :
    CopiesFit usable val ↔
      (cString host).length < usable host.length ∧ (cString port).length < usable port.length := by
  rw [CopiesFit, addressCopies, cut]
  simp

theorem copiesOf_eq (cut : phpExplode 58 val = [host, port]) :
    blocks.copiesOf usable val pass =
      [⟨blocks.host pass, usable host.length, cString host⟩,
        ⟨blocks.port pass, usable port.length, cString port⟩] := by
  rw [ConfigBlocks.copiesOf, cut]

/-- Without a NUL there is room when the blocks are larger than what was asked for. -/
theorem copiesFit_iff_of_free (free : (0 : UInt8) ∉ val) :
    CopiesFit usable val ↔ ∀ copy ∈ addressCopies val, copy.1 < usable copy.1 := by
  refine forall₂_congr fun copy member => ?_
  rw [addressCopies_overrun free copy member, Nat.succ_le_iff]

/-- A string with a colon is cut in two. -/
theorem nsqdConnectConfig_eq_some {config : NsqdConnectConfig} :
    nsqdConnectConfig val = some config ↔
      ∃ host port, phpExplode 58 val = [host, port] ∧ config = ⟨cString host, cString port⟩ := by
  rw [nsqdConnectConfig]
  split
  · next host port cut => simp [cut, eq_comm]
  · next other =>
      refine iff_of_false (Option.some_ne_none config).symm ?_
      rintro ⟨host, port, cut, -⟩
      exact other host port cut

/-- A string of the list, and the pass that copies it. -/
theorem mem_copies (usable : ℕ → ℕ) (blocks : ConfigBlocks) (here : (val, pass) ∈ vals.zipIdx)
    (cut : phpExplode 58 val = [host, port]) :
    (⟨blocks.host pass, usable host.length, cString host⟩ : StringCopy) ∈
        blocks.copies usable vals ∧
      (⟨blocks.port pass, usable port.length, cString port⟩ : StringCopy) ∈
        blocks.copies usable vals := by
  have among : ∀ copy ∈ blocks.copiesOf usable val pass, copy ∈ blocks.copies usable vals :=
    fun copy member => List.mem_flatMap_of_mem here member
  rw [copiesOf_eq cut] at among
  exact ⟨among _ List.mem_cons_self, among _ (List.mem_cons_of_mem _ (List.mem_singleton.mpr rfl))⟩

/-- A copy is one of a host or of a port. -/
theorem exists_of_mem_copies {copy : StringCopy} (member : copy ∈ blocks.copies usable vals) :
    ∃ val pass host port, (val, pass) ∈ vals.zipIdx ∧ phpExplode 58 val = [host, port] ∧
      (copy = ⟨blocks.host pass, usable host.length, cString host⟩ ∨
        copy = ⟨blocks.port pass, usable port.length, cString port⟩) := by
  obtain ⟨⟨val, pass⟩, here, inside⟩ := List.mem_flatMap.mp member
  change copy ∈ blocks.copiesOf usable val pass at inside
  rw [ConfigBlocks.copiesOf] at inside
  split at inside
  · next host port cut => exact ⟨val, pass, host, port, here, cut, List.mem_pair.mp inside⟩
  · cases inside

theorem fits_copies (fits : ∀ val ∈ vals, CopiesFit usable val) :
    ∀ copy ∈ blocks.copies usable vals, copy.Fits := by
  intro copy member
  obtain ⟨val, pass, host, port, here, cut, kind⟩ := exists_of_mem_copies member
  obtain ⟨first, second⟩ := (copiesFit_iff cut).mp (fits val (List.fst_mem_of_mem_zipIdx here))
  rcases kind with rfl | rfl
  · exact first
  · exact second

theorem zero_notMem_cString (bytes : Bytes) : (0 : UInt8) ∉ cString bytes := by
  intro member
  have nonzero := List.mem_takeWhile_imp member
  exact absurd nonzero (by decide)

/-- **What was copied is read**, when there is room for it. -/
theorem AddressHeap.Sound.config (sound : heap.Sound usable vals)
    (fits : ∀ val ∈ vals, CopiesFit usable val) (here : (val, pass) ∈ vals.zipIdx)
    (cut : phpExplode 58 val = [host, port]) :
    heap.config pass = some ⟨cString host, cString port⟩ := by
  obtain ⟨first, second⟩ := mem_copies usable heap.toConfigBlocks here cut
  have reads : ∀ copy ∈ heap.copies usable vals, (0 : UInt8) ∉ copy.text →
      stringAt (heap.memory pass) heap.mapped copy.block = some copy.text := fun copy member free =>
    stringAt_copied sound.apart (fits_copies fits) member free (sound.inside copy member)
      (sound.kept pass copy member)
  have host_read := reads _ first (zero_notMem_cString host)
  have port_read := reads _ second (zero_notMem_cString port)
  simp only [AddressHeap.config, host_read, port_read]

/-- All entries are read as they were cut. -/
theorem AddressHeap.Sound.configs (sound : heap.Sound usable vals)
    (fits : ∀ val ∈ vals, CopiesFit usable val) {addresses : List NsqdConnectConfig}
    (cut : vals.mapM nsqdConnectConfig = some addresses) : heap.configs vals = some addresses := by
  have each : ∀ entry ∈ vals.zipIdx, heap.config entry.2 = nsqdConnectConfig entry.1 := by
    rintro ⟨val, pass⟩ here
    have found := isSome_of_mapM cut val (List.fst_mem_of_mem_zipIdx here)
    obtain ⟨config, read⟩ := Option.isSome_iff_exists.mp found
    obtain ⟨host, port, parts, rfl⟩ := nsqdConnectConfig_eq_some.mp read
    exact (sound.config fits here parts).trans read.symm
  calc heap.configs vals = vals.zipIdx.mapM fun entry => nsqdConnectConfig entry.1 :=
        mapM_congr_mem each
    _ = (vals.zipIdx.map Prod.fst).mapM nsqdConnectConfig := by rw [List.mapM_map]; rfl
    _ = some addresses := by rw [List.zipIdx_map_fst, cut]

end Reading

/-! ## Blocks without room -/

/-- Blocks that stand some bytes apart. -/
def spreadBlocks (width : ℕ) : ConfigBlocks where
  host pass := 2 * pass * width
  port pass := (2 * pass + 1) * width

section Spread

variable {usable : ℕ → ℕ} {width : ℕ} {vals : List Bytes} {val : Bytes} {pass : ℕ}

theorem spread_copiesOf {copy : StringCopy}
    (member : copy ∈ (spreadBlocks width).copiesOf usable val pass) :
    2 * pass * width ≤ copy.block ∧ copy.block + width ≤ 2 * (pass + 1) * width := by
  have host : 2 * pass * width + width = (2 * pass + 1) * width := (Nat.succ_mul ..).symm
  have port : (2 * pass + 1) * width + width = 2 * (pass + 1) * width := (Nat.succ_mul ..).symm
  rw [ConfigBlocks.copiesOf] at member
  split at member
  · rcases List.mem_pair.mp member with rfl | rfl
    · exact ⟨le_rfl, by simp only [spreadBlocks]; omega⟩
    · exact ⟨by simp only [spreadBlocks]; omega, port.le⟩
  · cases member

/-- **The blocks stand apart.** -/
theorem spread_copies :
    ((spreadBlocks width).copies usable vals).Pairwise fun first second =>
      (first.resize width).Apart (second.resize width) := by
  rw [ConfigBlocks.copies, List.pairwise_flatMap]
  constructor
  · rintro ⟨val, pass⟩ -
    change ((spreadBlocks width).copiesOf usable val pass).Pairwise _
    rw [ConfigBlocks.copiesOf]
    split
    · exact List.pairwise_pair.mpr (.inl (Nat.succ_mul (2 * pass) width).ge)
    · exact List.Pairwise.nil
  · have increasing : vals.zipIdx.Pairwise fun first second => first.2 < second.2 := by
      rw [← List.pairwise_map, List.zipIdx_map_snd]
      exact List.pairwise_lt_range'
    refine increasing.imp ?_
    rintro ⟨val, pass⟩ ⟨val', pass'⟩ less copy here copy' there
    have before := (spread_copiesOf here).2
    have behind := (spread_copiesOf there).1
    have between : 2 * (pass + 1) * width ≤ 2 * pass' * width :=
      Nat.mul_le_mul_right width (by change pass < pass' at less; omega)
    exact .inl (before.trans (between.trans behind))

/-- A heap with blocks that stand apart, and what `connect_nsqd` finds there. -/
def spreadHeap (width : ℕ) (vals : List Bytes) (memory : Cells UInt8) : AddressHeap where
  toConfigBlocks := spreadBlocks width
  before := fun _ => 0
  memory := fun _ => memory
  mapped := 2 * vals.length * width

theorem copies_within {copy : StringCopy} (member : copy ∈ (spreadBlocks width).copies usable vals) :
    copy.block + width ≤ 2 * vals.length * width := by
  obtain ⟨⟨val, pass⟩, here, inside⟩ := List.mem_flatMap.mp member
  have bound : pass < vals.length := List.snd_lt_of_mem_zipIdx here
  refine (spread_copiesOf inside).2.trans (Nat.mul_le_mul_right width ?_)
  omega

/-- Blocks that are not wider than their distance are as an allocator gives them. -/
theorem sound_spread {memory : Cells UInt8}
    (narrow : ∀ copy ∈ (spreadBlocks width).copies usable vals, copy.size ≤ width)
    (kept : ∀ copy ∈ (spreadBlocks width).copies usable vals, ∀ address, copy.Covers address →
      memory address = copied (fun _ => 0) ((spreadBlocks width).copies usable vals) address) :
    (spreadHeap width vals memory).Sound usable vals where
  apart := by
    refine spread_copies.imp_of_mem fun {first second} here there apart => ?_
    have first_narrow := narrow first here
    have second_narrow := narrow second there
    simp only [StringCopy.Apart, StringCopy.resize] at apart ⊢
    omega
  inside := fun copy inside =>
    (Nat.add_le_add_left (narrow copy inside) _).trans (copies_within inside)
  kept := fun _ => kept

/-- What is read of an entry, given what is read of its two copies. -/
theorem AddressHeap.config_eq {heap : AddressHeap} {entry : ℕ} {host port : Bytes}
    (host_read : stringAt (heap.memory entry) heap.mapped (heap.host entry) = some host)
    (port_read : stringAt (heap.memory entry) heap.mapped (heap.port entry) = some port) :
    heap.config entry = some ⟨host, port⟩ := by
  rw [AddressHeap.config, host_read, port_read]

/-- What is read of all entries, one by one. -/
theorem AddressHeap.exists_configs {heap : AddressHeap}
    (each : ∀ entry ∈ vals.zipIdx, (heap.config entry.2).isSome) :
    ∃ configs, heap.configs vals = some configs ∧
      ∀ pass < vals.length, configs[pass]? = heap.config pass := by
  refine ⟨vals.zipIdx.map fun entry => (heap.config entry.2).getD ⟨[], []⟩, ?_, ?_⟩
  · refine mapM_eq_some_map fun entry listed => ?_
    obtain ⟨config, read⟩ := Option.isSome_iff_exists.mp (each entry listed)
    change heap.config entry.2 = _
    rw [read]
    rfl
  · intro pass bound
    have place : vals.zipIdx[pass]? = some (vals[pass], pass) := by
      rw [List.getElem?_zipIdx, List.getElem?_eq_getElem bound, Option.map_some, Nat.zero_add]
    obtain ⟨config, read⟩ :=
      Option.isSome_iff_exists.mp (each _ (List.mem_of_getElem? place))
    change heap.config pass = _ at read
    rw [List.getElem?_map, place, Option.map_some, read]
    rfl

section Misread

variable {bad : StringCopy}
  (wide : ∀ val ∈ vals, ∀ part ∈ phpExplode 58 val, part.length + usable part.length + 1 < width)
  (member : bad ∈ (spreadBlocks width).copies usable vals)

include wide

/-- A text and its block are not wider than the distance of the blocks. -/
theorem copies_short {copy : StringCopy} (inside : copy ∈ (spreadBlocks width).copies usable vals) :
    copy.text.length + 1 < width ∧ copy.size ≤ width := by
  obtain ⟨val, pass, host, port, here, cut, kind⟩ := exists_of_mem_copies inside
  have bounds : ∀ part ∈ [host, port],
      (cString part).length + 1 < width ∧ usable part.length ≤ width := by
    intro part listed
    have narrow := wide val (List.fst_mem_of_mem_zipIdx here) part (cut ▸ listed)
    have shorter : (cString part).length ≤ part.length := (List.takeWhile_sublist _).length_le
    exact ⟨by omega, by omega⟩
  rcases kind with rfl | rfl
  · exact bounds host List.mem_cons_self
  · exact bounds port (List.mem_cons_of_mem _ (List.mem_singleton.mpr rfl))

include member

/-- **The promises of the allocator are kept** when the byte behind a text without room for its
terminator is overwritten. -/
theorem sound_misread (full : bad.size ≤ bad.text.length) (byte : UInt8) :
    (spreadHeap width vals
      (overwritten ((spreadBlocks width).copies usable vals) bad byte)).Sound usable vals := by
  have short : ∀ copy ∈ (spreadBlocks width).copies usable vals, copy.text.length + 1 < width :=
    fun _ inside => (copies_short wide inside).1
  have narrow : ∀ copy ∈ (spreadBlocks width).copies usable vals, copy.size ≤ width :=
    fun _ inside => (copies_short wide inside).2
  refine sound_spread narrow fun copy inside address covers => ?_
  exact overwritten_of_covers spread_copies short member narrow full inside covers

/-- What is read of a copy. -/
theorem stringAt_misread {byte : UInt8} (nonzero : byte ≠ 0) {copy : StringCopy}
    (inside : copy ∈ (spreadBlocks width).copies usable vals) :
    stringAt (overwritten ((spreadBlocks width).copies usable vals) bad byte)
        (2 * vals.length * width) copy.block =
      some (if copy = bad then copy.text ++ [byte] else copy.text) := by
  have free : (0 : UInt8) ∉ copy.text := by
    obtain ⟨val, pass, host, port, -, -, kind⟩ := exists_of_mem_copies inside
    rcases kind with rfl | rfl
    · exact zero_notMem_cString host
    · exact zero_notMem_cString port
  have short : ∀ copy ∈ (spreadBlocks width).copies usable vals, copy.text.length + 1 < width :=
    fun copy inside => (copies_short wide inside).1
  split
  · next same =>
      subst same
      exact stringAt_overwritten spread_copies short member free nonzero (copies_within member)
  · next other =>
      exact stringAt_overwritten_of_ne spread_copies short member free inside other
        (copies_within inside)

/-- What is read of the entries, with the byte in the entry that `bad` belongs to. -/
theorem exists_configs_misread {addresses : List NsqdConnectConfig}
    (cut : vals.mapM nsqdConnectConfig = some addresses) {byte : UInt8} (nonzero : byte ≠ 0)
    {host port : Bytes} (here : (val, pass) ∈ vals.zipIdx) (parts : phpExplode 58 val = [host, port]) :
    ∃ configs, (spreadHeap width vals (overwritten ((spreadBlocks width).copies usable vals) bad
        byte)).configs vals = some configs ∧
      configs[pass]? = some
        ⟨if ⟨(spreadBlocks width).host pass, usable host.length, cString host⟩ = bad then
            cString host ++ [byte] else cString host,
          if ⟨(spreadBlocks width).port pass, usable port.length, cString port⟩ = bad then
            cString port ++ [byte] else cString port⟩ := by
  let heap := spreadHeap width vals (overwritten ((spreadBlocks width).copies usable vals) bad byte)
  have reads : ∀ {val : Bytes} {pass : ℕ} {host port : Bytes}, (val, pass) ∈ vals.zipIdx →
      phpExplode 58 val = [host, port] → heap.config pass = some
        ⟨if ⟨(spreadBlocks width).host pass, usable host.length, cString host⟩ = bad then
            cString host ++ [byte] else cString host,
          if ⟨(spreadBlocks width).port pass, usable port.length, cString port⟩ = bad then
            cString port ++ [byte] else cString port⟩ := by
    intro val pass host port here parts
    obtain ⟨first, second⟩ := mem_copies usable (spreadBlocks width) here parts
    exact AddressHeap.config_eq (stringAt_misread wide member nonzero first)
      (stringAt_misread wide member nonzero second)
  have each : ∀ entry ∈ vals.zipIdx, (heap.config entry.2).isSome := by
    rintro ⟨val, entry⟩ listed
    obtain ⟨config, read⟩ := Option.isSome_iff_exists.mp
      (isSome_of_mapM cut val (List.fst_mem_of_mem_zipIdx listed))
    obtain ⟨host, port, parts, -⟩ := nsqdConnectConfig_eq_some.mp read
    exact Option.isSome_of_eq_some (reads listed parts)
  obtain ⟨configs, read, entries⟩ := AddressHeap.exists_configs each
  exact ⟨configs, read, (entries pass (List.snd_lt_of_mem_zipIdx here)).trans (reads here parts)⟩

end Misread

/-- **Without room a text can be misread**: the host or the port goes on with a byte of somebody
else. -/
theorem exists_misread {addresses : List NsqdConnectConfig}
    (cut : vals.mapM nsqdConnectConfig = some addresses) (here : (val, pass) ∈ vals.zipIdx)
    {host port : Bytes} (parts : phpExplode 58 val = [host, port]) (tight : ¬ CopiesFit usable val)
    {behindHost behindPort : UInt8} (host_nonzero : behindHost ≠ 0)
    (port_nonzero : behindPort ≠ 0) :
    ∃ heap : AddressHeap, heap.Sound usable vals ∧ ∃ configs, heap.configs vals = some configs ∧
      (configs[pass]? = some ⟨cString host ++ [behindHost], cString port⟩ ∨
        configs[pass]? = some ⟨cString host, cString port ++ [behindPort]⟩) := by
  let width := ((vals.flatMap (phpExplode 58)).map fun part =>
    part.length + usable part.length + 2).sum
  have wide : ∀ val ∈ vals, ∀ part ∈ phpExplode 58 val,
      part.length + usable part.length + 1 < width := by
    intro val listed part member
    exact Nat.lt_of_succ_le (List.le_sum_of_mem (List.mem_map.mpr
      ⟨part, List.mem_flatMap.mpr ⟨val, listed, member⟩, rfl⟩))
  obtain ⟨first, second⟩ := mem_copies usable (spreadBlocks width) here parts
  have apart : (spreadBlocks width).host pass ≠ (spreadBlocks width).port pass := by
    have positive := wide val (List.fst_mem_of_mem_zipIdx here) host (by simp [parts])
    have next : (2 * pass + 1) * width = 2 * pass * width + width := Nat.succ_mul ..
    simp only [spreadBlocks]
    omega
  rw [copiesFit_iff parts, not_and_or, not_lt, not_lt] at tight
  rcases tight with host_tight | port_tight
  · obtain ⟨configs, read, entry⟩ := exists_configs_misread wide first cut host_nonzero here parts
    rw [if_pos rfl, if_neg fun same => apart (congrArg StringCopy.block same).symm] at entry
    exact ⟨_, sound_misread wide first host_tight behindHost, configs, read, .inl entry⟩
  · obtain ⟨configs, read, entry⟩ := exists_configs_misread wide second cut port_nonzero here parts
    rw [if_neg fun same => apart (congrArg StringCopy.block same), if_pos rfl] at entry
    exact ⟨_, sound_misread wide second port_tight behindPort, configs, read, .inr entry⟩

end Spread

/-! ## What is connected to -/

/-- Without a colon in every string nothing is connected to, and NULL is dereferenced. -/
theorem Nsq.connectNsqdStrings_faulted {self : Nsq} {vals : List Bytes} {heap : AddressHeap}
    {memory : Cells ℤ} {answers : List Attempt} (missing : ∃ val ∈ vals, (58 : UInt8) ∉ val) :
    self.connectNsqdStrings vals heap memory answers =
      some ⟨[], self, .faulted .nullDereference⟩ := by
  obtain ⟨val, member, free⟩ := missing
  have fails : vals.mapM nsqdConnectConfig = none := by
    rw [Option.eq_none_iff_forall_ne_some]
    intro addresses cut
    have here := isSome_of_mapM cut val member
    rw [nsqdConnectConfig_eq_none.mpr free] at here
    cases here
  rw [Nsq.connectNsqdStrings, fails]

/-- Without connections a call connects to what was read, from the last entry to the first. -/
theorem Nsq.attempted_connectNsqdStrings {self : Nsq} (free : self.nsqdConnectionFds = none)
    {vals : List Bytes} {addresses configs : List NsqdConnectConfig} {heap : AddressHeap}
    (cut : vals.mapM nsqdConnectConfig = some addresses) (read : heap.configs vals = some configs)
    {memory : Cells ℤ} {answers : List Attempt} {result : CallResult}
    (done : self.connectNsqdStrings vals heap memory answers = some result) :
    result.effects.filterMap NsqEffect.attempted = configs.reverse := by
  rw [Nsq.connectNsqdStrings, cut, free] at done
  simp only [read, Option.bind_some] at done
  obtain ⟨before, effects, -, -, walked⟩ := Nsq.connectNsqd_released done
  rw [effects, List.filterMap_append, (walked free).2, release_filled, List.filterMap_append,
    (filterMap_freeConfig _).1]
  exact List.append_nil _

/-- It returns when every host resolves. -/
theorem Nsq.connectNsqdStrings_isSome {self : Nsq} (free : self.nsqdConnectionFds = none)
    {vals : List Bytes} {addresses configs : List NsqdConnectConfig} {heap : AddressHeap}
    (cut : vals.mapM nsqdConnectConfig = some addresses) (read : heap.configs vals = some configs)
    {memory : Cells ℤ} {answers : List Attempt} :
    (∃ result, self.connectNsqdStrings vals heap memory answers = some result) ↔
      answers.length = configs.length ∧ ∀ answer ∈ answers, answer.resolves = true := by
  rw [Nsq.connectNsqdStrings, cut, free]
  simp only [read, Option.bind_some]
  exact Nsq.connectNsqd_isSome free

/-- What is cut from the text of an address. -/
theorem phpExplode_text (address : SockaddrIn) :
    phpExplode 58 address.text =
      [address.sinAddr.dottedQuad, decimalNat address.sinPort.toNat] := by
  have colon : (58 : UInt8) ∉ address.sinAddr.dottedQuad :=
    not_mem_dottedQuad (by decide) (by decide)
  rw [SockaddrIn.text, phpExplode, cutLine_append colon]

/-- A letter behind a dotted quad makes a name of it. -/
theorem sockaddrIn_concat {gethostbyname : Bytes → Option InAddr} (address : InAddr) (port : Bytes) :
    sockaddrIn gethostbyname (address.dottedQuad ++ [120]) port =
      (gethostbyname (address.dottedQuad ++ [120])).map fun found => ⟨found, sinPort port⟩ := by
  have refused : ¬ checkIpaddr (address.dottedQuad ++ [120]) = true := by
    rw [checkIpaddr_iff]
    rintro (⟨other, same⟩ | six)
    · have letter : (120 : UInt8) ∉ other.dottedQuad := not_mem_dottedQuad (by decide) (by decide)
      exact letter (same ▸ List.mem_append_right _ (List.mem_singleton.mpr rfl))
    · have colon : (58 : UInt8) ∉ address.dottedQuad := not_mem_dottedQuad (by decide) (by decide)
      rcases List.mem_append.mp (inetPton6_bytes six).1 with inside | last
      · exact colon inside
      · exact absurd last (by decide)
  rw [sockaddrIn, if_neg refused]

/-- Behind the text of a port there is a digit that makes another port of it. -/
theorem exists_sinPort_concat_ne (port : UInt16) :
    ∃ byte : UInt8, byte ≠ 0 ∧ sinPort (decimalNat port.toNat ++ [byte]) ≠ port := by
  by_cases zero : port = 0
  · subst zero
    exact ⟨49, by decide, by decide⟩
  · have positive : port.toNat ≠ 0 := fun none => zero (UInt16.toNat_inj.mp none)
    have small := port.toNat_lt
    have reads : ∀ digit < 10, sinPort (decimalNat port.toNat ++ [digitByte digit]) =
        UInt16.ofNat (digit + 10 * port.toNat) := by
      intro digit bound
      rw [decimalNat_concat positive bound, sinPort_decimalNat_of_lt (by omega)]
    by_cases one : (1 + 10 * port.toNat) % 65536 = port.toNat
    · refine ⟨digitByte 2, by decide, ?_⟩
      rw [reads 2 (by norm_num), ← UInt16.toNat_inj.ne, UInt16.toNat_ofNat']
      omega
    · refine ⟨digitByte 1, by decide, ?_⟩
      rw [reads 1 (by norm_num), ← UInt16.toNat_inj.ne, UInt16.toNat_ofNat']
      omega

/-- Some address is another one. -/
theorem exists_ne_inAddr (address : InAddr) : ∃ other : InAddr, other ≠ address := by
  by_cases none : address = .none
  · exact ⟨⟨0, 0, 0, 0⟩, by rw [none]; decide⟩
  · exact ⟨.none, Ne.symm none⟩

/-- A text that goes on leads elsewhere. -/
theorem sockaddrIn_misread {address : SockaddrIn} {other : InAddr} {digit : UInt8}
    (elsewhere : other ≠ address.sinAddr)
    (port : sinPort (decimalNat address.sinPort.toNat ++ [digit]) ≠ address.sinPort)
    {config : NsqdConnectConfig}
    (misread : config =
        ⟨address.sinAddr.dottedQuad ++ [120], decimalNat address.sinPort.toNat⟩ ∨
      config = ⟨address.sinAddr.dottedQuad, decimalNat address.sinPort.toNat ++ [digit]⟩) :
    sockaddrIn (fun _ => some other) config.host config.port ≠ some address := by
  rcases misread with rfl | rfl
  · rw [sockaddrIn_concat, Option.map_some]
    exact fun same => elsewhere (congrArg SockaddrIn.sinAddr (Option.some.inj same))
  · rw [sockaddrIn_dottedQuad]
    exact fun same => port (congrArg SockaddrIn.sinPort (Option.some.inj same))

/-- **The addresses that are written are those that are connected to**, from the last to the
first, whatever the bytes behind the blocks are, exactly if the blocks have room for what `strcpy`
stores. -/
theorem connects_to_texts {self : Nsq} (free : self.nsqdConnectionFds = none) (usable : ℕ → ℕ)
    (addresses : List SockaddrIn) :
    (∀ (heap : AddressHeap) (gethostbyname : Bytes → Option InAddr) (memory : Cells ℤ)
        (answers : List Attempt) (result : CallResult),
      heap.Sound usable (addresses.map SockaddrIn.text) →
      self.connectNsqdStrings (addresses.map SockaddrIn.text) heap memory answers = some result →
      (result.effects.filterMap NsqEffect.attempted).map
          (fun config => sockaddrIn gethostbyname config.host config.port) =
        addresses.reverse.map some) ↔
    ∀ address ∈ addresses, CopiesFit usable address.text := by
  have cut := mapM_map_eq_some nsqdConnectConfig_text addresses
  constructor
  · intro reaches address member
    by_contra tight
    obtain ⟨pass, place⟩ := List.mem_iff_getElem?.mp member
    have here : (address.text, pass) ∈ (addresses.map SockaddrIn.text).zipIdx :=
      List.mk_mem_zipIdx_iff_getElem?.mpr (by rw [List.getElem?_map, place]; rfl)
    obtain ⟨other, elsewhere⟩ := exists_ne_inAddr address.sinAddr
    obtain ⟨digit, nonzero, port⟩ := exists_sinPort_concat_ne address.sinPort
    have letter : (120 : UInt8) ≠ 0 := by decide
    obtain ⟨heap, sound, configs, read, misread⟩ :=
      exists_misread cut here (phpExplode_text address) tight letter nonzero
    rw [cString_of_notMem (not_mem_dottedQuad (by decide) (by decide)),
      cString_of_notMem (not_mem_decimalNat (by decide))] at misread
    -- the kernel and the name server answer every attempt
    obtain ⟨result, done⟩ : ∃ result, self.connectNsqdStrings (addresses.map SockaddrIn.text) heap
        (fun _ => 0) (List.replicate configs.length ⟨5, true, true⟩) = some result := by
      refine (Nsq.connectNsqdStrings_isSome free cut read).mpr ⟨List.length_replicate, ?_⟩
      intro answer member
      rw [List.eq_of_mem_replicate member]
    have reached := reaches heap (fun _ => some other) _ _ result sound done
    rw [Nsq.attempted_connectNsqdStrings free cut read done, List.map_reverse, List.map_reverse,
      List.reverse_inj] at reached
    have there := congrArg (fun list => list[pass]?) reached
    simp only [List.getElem?_map, place, Option.map_some] at there
    rcases misread with host | port'
    · rw [host] at there
      exact sockaddrIn_misread elsewhere port (.inl rfl) (Option.some.inj there)
    · rw [port'] at there
      exact sockaddrIn_misread elsewhere port (.inr rfl) (Option.some.inj there)
  · intro fits heap gethostbyname memory answers result sound done
    have read := sound.configs (List.forall_mem_map.mpr fits) cut
    rw [Nsq.attempted_connectNsqdStrings free cut read done, ← List.map_reverse, List.map_map]
    refine List.map_congr_left fun address _ => ?_
    exact (sockaddrIn_dottedQuad _ _).trans (by rw [sinPort_decimalNat])

/-- Blocks of a multiple of eight bytes. -/
def eights (size : ℕ) : ℕ := max 8 ((size + 7) / 8 * 8)

/-- **The addresses that such blocks have no room for** are those with a host of eight characters. -/
theorem copiesFit_eights (address : SockaddrIn) :
    CopiesFit eights address.text ↔ address.sinAddr.dottedQuad.length ≠ 8 := by
  have octet : ∀ n : UInt8, (decimalNat n.toNat).length ≤ 3 := fun n =>
    length_decimalNat_le (by norm_num) (lt_trans n.toNat_lt (by norm_num))
  have port : (decimalNat address.sinPort.toNat).length ≤ 5 :=
    length_decimalNat_le (by norm_num) (lt_trans address.sinPort.toNat_lt (by norm_num))
  have host : address.sinAddr.dottedQuad.length ≤ 15 := by
    have first := octet address.sinAddr.first
    have second := octet address.sinAddr.second
    have third := octet address.sinAddr.third
    have fourth := octet address.sinAddr.fourth
    simp only [InAddr.dottedQuad, InAddr.parts, List.intercalate]
    simp
    omega
  have free : (0 : UInt8) ∉ address.text := by
    rw [SockaddrIn.text, List.mem_append, List.mem_cons, not_or, not_or]
    exact ⟨not_mem_dottedQuad (by decide) (by decide), by decide, not_mem_decimalNat (by decide)⟩
  rw [copiesFit_iff_of_free free, addressCopies, phpExplode_text, List.map_cons, List.map_cons,
    List.map_nil, List.forall_mem_cons, List.forall_mem_singleton, eights, eights]
  omega

/-- Two addresses. -/
def writtenAddresses : List SockaddrIn := [⟨⟨127, 0, 0, 1⟩, 4150⟩, ⟨⟨10, 0, 0, 255⟩, 65535⟩]

/-- They are connected to, from blocks of sixteen and eight bytes. -/
theorem connects_to_texts_two : ∃ (heap : AddressHeap) (result : CallResult),
    heap.Sound eights (writtenAddresses.map SockaddrIn.text) ∧
      (⟨none, some 1500, none⟩ : Nsq).connectNsqdStrings (writtenAddresses.map SockaddrIn.text) heap
        (fun _ => 7) [⟨5, true, true⟩, ⟨6, true, false⟩] = some result ∧
      (result.effects.filterMap NsqEffect.attempted).map
          (fun config => sockaddrIn (fun _ => none) config.host config.port) =
        [some ⟨⟨10, 0, 0, 255⟩, 65535⟩, some ⟨⟨127, 0, 0, 1⟩, 4150⟩] := by
  have fits : ∀ address ∈ writtenAddresses, CopiesFit eights address.text := by
    intro address member
    rw [copiesFit_eights]
    revert address
    decide
  have narrow : ∀ copy ∈ (spreadBlocks 16).copies eights (writtenAddresses.map SockaddrIn.text),
      copy.size ≤ 16 := by decide
  have sound := sound_spread narrow fun copy _ address _ => rfl
  have cut := mapM_map_eq_some nsqdConnectConfig_text writtenAddresses
  have read := sound.configs (List.forall_mem_map.mpr fits) cut
  obtain ⟨result, done⟩ : ∃ result, (⟨none, some 1500, none⟩ : Nsq).connectNsqdStrings
      (writtenAddresses.map SockaddrIn.text) _ (fun _ => 7) [⟨5, true, true⟩, ⟨6, true, false⟩] =
        some result :=
    (Nsq.connectNsqdStrings_isSome rfl cut read).mpr ⟨rfl, by decide⟩
  exact ⟨_, result, sound, done,
    (connects_to_texts rfl eights writtenAddresses).mpr fits _ _ _ _ result sound done⟩

/-- Two addresses whose hosts have eight characters. -/
def neighbours : List Bytes := [ascii "10.0.0.1:4150", ascii "10.0.0.2:4152"]

/-- Blocks of eight bytes, one behind the other in the order in which they are asked for. -/
def packedBlocks : ConfigBlocks := ⟨fun pass => 16 * pass + 8, fun pass => 16 * pass⟩

/-- The first host goes on with the port of the second address. -/
example : AddressHeap.configs
    ⟨packedBlocks, fun _ => 0, fun _ => copied (fun _ => 0) (packedBlocks.copies eights neighbours),
      48⟩ neighbours =
    some [⟨ascii "10.0.0.14152", ascii "4150"⟩, ⟨ascii "10.0.0.2", ascii "4152"⟩] := by decide

end PhpNsq

import PhpNsq.Foundations.InternetAddresses
import PhpNsq.Nsq.AddressWalks
import PhpNsq.Nsq.Workers

/-!
# From the texts of addresses to sockets

`Nsq::connectNsqd` is given strings, and cuts each at its first colon with `php_explode`. A string
without a colon has no element behind it. The workers of `Nsq::subscribe` take host and port from a
producer.

Both go on alike: a host that `check_ipaddr` accepts is read with `inet_addr`, any other is a name,
and the port is read with `atoi`. `check_ipaddr` accepts the addresses of both families.
`connect_nsqd` never meets one of `AF_INET6`, as there is no colon in a host. A worker that does
connects to 255.255.255.255.
-/

set_option autoImplicit false

namespace PhpNsq

open Foundations

/-- What is set of a `sockaddr_in`. `htons` gives the bytes of the port in the order of the network,
and the port is the number that they denote. -/
structure SockaddrIn where
  sinAddr : InAddr
  sinPort : UInt16
  deriving DecidableEq

/-- `check_ipaddr`. -/
def checkIpaddr (str : Bytes) : Bool :=
  if str = [] then false
  else if (inetPton4 str).isSome then true
  else (inetPton6 str).isSome

/-- `htons(atoi(port))`. -/
def sinPort (port : Bytes) : UInt16 := UInt16.ofInt (atoi port)

/-- The address that `connect_nsqd` and `subscribe` of sub.c connect to, given the addresses that
`gethostbyname` knows. Both exit for a name that it does not know. -/
def sockaddrIn (gethostbyname : Bytes → Option InAddr) (host port : Bytes) : Option SockaddrIn :=
  if checkIpaddr host then some ⟨inetAddr host, sinPort port⟩
  else (gethostbyname host).map fun address => ⟨address, sinPort port⟩

/-! ## The strings of connectNsqd -/

/-- `php_explode` for a delimiter of one byte and the limit one. -/
def phpExplode (delim : UInt8) (str : Bytes) : List Bytes :=
  match cutLine delim str with
  | none => [str]
  | some (first, rest) => [first, rest]

/-- The pass of the fill loop for one string, up to the entry of `connect_config_arr`. -/
def nsqdConnectConfig (val : Bytes) : Option NsqdConnectConfig :=
  match phpExplode 58 val with
  | [host, port] => some ⟨cString host, cString port⟩
  | _ => none

/-- The address that a worker connects to. -/
def NSQArg.sockaddrIn (gethostbyname : Bytes → Option InAddr) (arg : NSQArg) : Option SockaddrIn :=
  PhpNsq.sockaddrIn gethostbyname (cString arg.host) (cString arg.port)

/-! ## Hosts and ports -/

variable {gethostbyname : Bytes → Option InAddr}

theorem checkIpaddr_iff {str : Bytes} :
    checkIpaddr str = true ↔ (∃ address : InAddr, str = address.dottedQuad) ∨
      (inetPton6 str).isSome := by
  rw [checkIpaddr]
  split
  · next empty =>
      rw [empty]
      refine iff_of_false Bool.false_ne_true ?_
      rintro (⟨address, none⟩ | six)
      · exact dottedQuad_ne_nil address none.symm
      · exact absurd six (by decide)
  · split
    · next four =>
        obtain ⟨address, read⟩ := Option.isSome_iff_exists.mp four
        exact iff_of_true rfl (.inl ⟨address, inetPton4_eq_some.mp read⟩)
    · next other =>
        refine ⟨.inr, fun accepted => accepted.resolve_left ?_⟩
        rintro ⟨address, quad⟩
        exact other (Option.isSome_of_eq_some (inetPton4_eq_some.mpr quad))

/-- A number is cut to a port. -/
theorem sinPort_decimalNat_of_lt {n : ℕ} (small : n < 2 ^ 31) :
    sinPort (decimalNat n) = UInt16.ofNat n := by
  have shown : decimalNat n = decimal (n : ℤ) := by
    rw [decimal, if_neg (by omega), Int.natAbs_natCast]
  have kept : ((n : ℤ) % 2 ^ 16).toNat = n % 2 ^ 16 := by omega
  rw [sinPort, shown, atoi_decimal (by omega) (by omega), UInt16.ofInt, kept]
  exact UInt16.ofNat_mod_size

/-- A port is read as the number that it shows. -/
theorem sinPort_decimalNat (port : UInt16) : sinPort (decimalNat port.toNat) = port := by
  have small := port.toNat_lt
  rw [sinPort_decimalNat_of_lt (by omega), UInt16.ofNat_toNat]

theorem sockaddrIn_dottedQuad (address : InAddr) (port : Bytes) :
    sockaddrIn gethostbyname address.dottedQuad port = some ⟨address, sinPort port⟩ := by
  rw [sockaddrIn, if_pos (checkIpaddr_iff.mpr (.inl ⟨address, rfl⟩)), inetAddr_dottedQuad]

theorem sockaddrIn_of_inetPton6 {host : Bytes} (six : (inetPton6 host).isSome) (port : Bytes) :
    sockaddrIn gethostbyname host port = some ⟨.none, sinPort port⟩ := by
  rw [sockaddrIn, if_pos (checkIpaddr_iff.mpr (.inr six)), inetAddr_of_inetPton6 six]

/-! ## The strings -/

/-- A string is cut at its first colon. -/
theorem nsqdConnectConfig_append {host : Bytes} (free : (58 : UInt8) ∉ host) (port : Bytes) :
    nsqdConnectConfig (host ++ 58 :: port) = some ⟨cString host, cString port⟩ := by
  rw [nsqdConnectConfig, phpExplode, cutLine_append free]

/-- The text of an address: a dotted quad, a colon and the port. -/
def SockaddrIn.text (address : SockaddrIn) : Bytes :=
  address.sinAddr.dottedQuad ++ 58 :: decimalNat address.sinPort.toNat

theorem nsqdConnectConfig_text (address : SockaddrIn) :
    nsqdConnectConfig address.text =
      some ⟨address.sinAddr.dottedQuad, decimalNat address.sinPort.toNat⟩ := by
  have colon : (58 : UInt8) ∉ address.sinAddr.dottedQuad :=
    not_mem_dottedQuad (by decide) (by decide)
  have host : (0 : UInt8) ∉ address.sinAddr.dottedQuad := not_mem_dottedQuad (by decide) (by decide)
  have port : (0 : UInt8) ∉ decimalNat address.sinPort.toNat := not_mem_decimalNat (by decide)
  rw [SockaddrIn.text, nsqdConnectConfig_append colon, cString_of_notMem host,
    cString_of_notMem port]

/-- There is no colon in a host. -/
theorem not_mem_host {val : Bytes} {config : NsqdConnectConfig}
    (cut : nsqdConnectConfig val = some config) : (58 : UInt8) ∉ config.host := by
  rw [nsqdConnectConfig, phpExplode] at cut
  cases found : cutLine 58 val with
  | none =>
      rw [found] at cut
      cases cut
  | some parts =>
      rw [found] at cut
      obtain rfl := Option.some.inj cut
      intro member
      exact (eq_of_cutLine found).2 ((List.takeWhile_prefix _).subset member)

/-- A string that has no colon is not cut. -/
theorem nsqdConnectConfig_eq_none {val : Bytes} :
    nsqdConnectConfig val = none ↔ (58 : UInt8) ∉ val := by
  rw [nsqdConnectConfig, phpExplode]
  cases found : cutLine 58 val with
  | none => exact iff_of_true rfl (notMem_of_cutLine found)
  | some parts =>
      obtain ⟨rfl, -⟩ := eq_of_cutLine found
      exact iff_of_false (Option.some_ne_none _) fun free =>
        free (List.mem_append_right _ (List.mem_cons_self ..))

/-! ## What is connected to -/

/-- A host that `check_ipaddr` accepts leads to the address that it shows, or is one of `AF_INET6`
and leads to 255.255.255.255. -/
theorem sockaddrIn_of_checkIpaddr {host : Bytes} (accepted : checkIpaddr host = true)
    (port : Bytes) (address : InAddr) :
    sockaddrIn gethostbyname host port = some ⟨address, sinPort port⟩ ↔
      host = address.dottedQuad ∨ (inetPton6 host).isSome ∧ address = .none := by
  rcases checkIpaddr_iff.mp accepted with ⟨shown, rfl⟩ | six
  · rw [sockaddrIn_dottedQuad, Option.some.injEq, SockaddrIn.mk.injEq, dottedQuad_injective.eq_iff]
    have four := inetPton6_dottedQuad shown
    tauto
  · rw [sockaddrIn_of_inetPton6 six, Option.some.injEq, SockaddrIn.mk.injEq]
    constructor
    · exact fun same => .inr ⟨six, same.1.symm⟩
    · rintro (rfl | ⟨-, none⟩)
      · exact (inetPton6_dottedQuad address six).elim
      · exact ⟨none.symm, rfl⟩

/-- **The literal addresses that are reached.** `connectNsqd` reaches those of `AF_INET` as they are
written, and takes no other host for a literal. A worker takes those of `AF_INET6` for literals as
well, and goes to 255.255.255.255 for all of them. -/
theorem literal_reaches_iff (gethostbyname : Bytes → Option InAddr) (address : InAddr) :
    (∀ val config, nsqdConnectConfig val = some config → checkIpaddr config.host = true →
      (sockaddrIn gethostbyname config.host config.port = some ⟨address, sinPort config.port⟩ ↔
        config.host = address.dottedQuad)) ∧
    ∀ arg : NSQArg, checkIpaddr (cString arg.host) = true →
      (arg.sockaddrIn gethostbyname = some ⟨address, sinPort (cString arg.port)⟩ ↔
        cString arg.host = address.dottedQuad ∨
          (inetPton6 (cString arg.host)).isSome ∧ address = .none) := by
  constructor
  · intro val config cut accepted
    rw [sockaddrIn_of_checkIpaddr accepted, or_iff_left]
    rintro ⟨six, -⟩
    exact not_mem_host cut (inetPton6_bytes six).1
  · intro arg accepted
    exact sockaddrIn_of_checkIpaddr accepted _ address

/-- A string for `connectNsqd`, and a producer with an address of `AF_INET6`. -/
theorem literal_reaches_two :
    sockaddrIn (fun _ => none) (ascii "10.0.0.1") (ascii "4150") =
        some ⟨⟨10, 0, 0, 1⟩, sinPort (ascii "4150")⟩ ∧
      ((⟨none, none, none, none, none, none⟩ : SubscribeConfig).nsqArg (ascii "t") (ascii "c") 0
          ⟨ascii "2001:db8::7", ascii "4150"⟩).sockaddrIn (fun _ => none) =
        some ⟨⟨255, 255, 255, 255⟩, sinPort (ascii "4150")⟩ := by
  constructor
  · exact ((literal_reaches_iff (fun _ => none) ⟨10, 0, 0, 1⟩).1 (ascii "10.0.0.1:4150")
      ⟨ascii "10.0.0.1", ascii "4150"⟩ (by decide) (by decide)).mpr (by decide)
  · exact ((literal_reaches_iff (fun _ => none) .none).2 _ (by decide)).mpr
      (.inr ⟨by decide, rfl⟩)

end PhpNsq

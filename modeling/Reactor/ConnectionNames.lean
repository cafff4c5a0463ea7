import Reactor.BufferCodec
import Reactor.ServerLifetime

/-!
# Names of connections (`TcpServer::newConnection`, `InetAddress.cpp`, `SocketsOps.cpp`)

A connection is called after its server, the server's address and a number. The text of the
address goes through one buffer of 64 characters and the suffix through another; the longest
suffix fills the second one. What `inet_ntop` writes is a parameter, of at most 45 characters.

* `InetAddress.toIpPort_eq` - the text of an address is not cut off.
* `ServerConfig.ofListenAddr` - the server of an address.
* `connection_names_distinct` - the names of a run differ, and the map is keyed by them.
-/

namespace Reactor

open Reactor.Lib

/-! ### The text of an address -/

/-- `sin_addr` or `sin6_addr`, as the family says. -/
inductive IpAddr where
  | inet (sin_addr : BitVec 32)
  | inet6 (sin6_addr : BitVec 128)
deriving DecidableEq, Repr

/-- An address; `sin_port`, in network byte order, is at the same offset for both families. -/
structure InetAddress where
  ip : IpAddr
  sin_port : BitVec 16
deriving DecidableEq, Repr

/-- `INET_ADDRSTRLEN` and `INET6_ADDRSTRLEN`. -/
def IpAddr.strlen : IpAddr → Nat
  | .inet _ => 16
  | .inet6 _ => 46

section Text

variable (inetNtop : IpAddr → List Char)

/-- `sockets::toIp` into an empty string in a buffer of `size` characters; `inet_ntop` writes
nothing where its text does not fit. -/
def toIp (size : Nat) (addr : InetAddress) : Exec (List Char) := do
  check (addr.ip.strlen ≤ size) (.toIp_size addr.ip.strlen)
  .ok (if (inetNtop addr.ip).length < size then inetNtop addr.ip else [])

/-- `sockets::toIpPort`; `snprintf` keeps one character for the terminator. -/
def toIpPort (size : Nat) (addr : InetAddress) : Exec (List Char) := do
  let ip ← toIp inetNtop size addr
  let port := networkToHost 2 addr.sin_port
  check (ip.length < size) .toIpPort_size
  .ok (ip ++ (':' :: Nat.toDigits 10 port.toNat).take (size - ip.length - 1))

namespace InetAddress

def toIpPort (addr : InetAddress) : Exec (List Char) := Reactor.toIpPort inetNtop 64 addr

/-- The whole text of an address. -/
def text (addr : InetAddress) : List Char :=
  inetNtop addr.ip ++ ':' :: Nat.toDigits 10 (networkToHost 2 addr.sin_port).toNat

variable {inetNtop}

theorem length_port_le (addr : InetAddress) :
    (Nat.toDigits 10 (networkToHost 2 addr.sin_port).toNat).length ≤ 5 := by
  rw [Nat.length_toDigits_le_iff (by decide) (by decide)]
  exact Nat.lt_of_lt_of_le (networkToHost 2 addr.sin_port).isLt (by decide)

theorem length_text_le (hntop : ∀ ip, (inetNtop ip).length ≤ 45) (addr : InetAddress) :
    (addr.text inetNtop).length ≤ 51 := by
  have hip := hntop addr.ip
  have hport := addr.length_port_le
  simp only [text, List.length_append, List.length_cons]
  omega

/-- The buffer of `InetAddress::toIpPort` holds every text. -/
theorem toIpPort_eq (hntop : ∀ ip, (inetNtop ip).length ≤ 45) (addr : InetAddress) :
    addr.toIpPort inetNtop = .ok (addr.text inetNtop) := by
  have hip := hntop addr.ip
  have hport := addr.length_port_le
  have hstrlen : addr.ip.strlen ≤ 64 := by
    cases addr.ip <;> simp [IpAddr.strlen]
  have htoIp : toIp inetNtop 64 addr = .ok (inetNtop addr.ip) := by
    rw [toIp, check_of hstrlen, ok_bind, if_pos (by omega)]
  have hwhole : (':' :: Nat.toDigits 10 (networkToHost 2 addr.sin_port).toNat).take
      (64 - (inetNtop addr.ip).length - 1) =
      ':' :: Nat.toDigits 10 (networkToHost 2 addr.sin_port).toNat := by
    apply List.take_of_length_le
    rw [List.length_cons]
    omega
  rw [toIpPort, Reactor.toIpPort, htoIp, ok_bind]
  simp only [check_of (show (inetNtop addr.ip).length < 64 by omega), ok_bind, hwhole, text]

end InetAddress

end Text

/-- The constructor of a server: its name and the text of the address it listens on. -/
def ServerConfig.ofListenAddr (inetNtop : IpAddr → List Char)
    (hntop : ∀ ip, (inetNtop ip).length ≤ 45) (nameArg : List Char) (listenAddr : InetAddress) :
    ServerConfig where
  name := nameArg
  ipPort := listenAddr.text inetNtop
  ipPort_length := InetAddress.length_text_le hntop listenAddr

/-! ### The map -/

section Map

variable {n : Nat} {cfg : ServerConfig} {w : ServerWorld n} {c : Nat}

/-- The name of the next connection is not in the map. -/
theorem MapInv.next_absent (h : MapInv cfg w) (hfew : w.accepted + 1 < 2 ^ 31) :
    w.connections (cfg.connName w.nextConnId) = none := by
  cases hentry : w.connections (cfg.connName w.nextConnId) with
  | none => rfl
  | some c =>
      obtain ⟨hc, hname, -⟩ := (h.map (by omega) _ c).mp hentry
      rw [h.name c hc, h.next] at hname
      have hid := connName_injective cfg (by omega) (by omega) hname
      omega

/-- A removal that returns has found the connection's own entry and taken out no other. -/
theorem MapInv.removes_own (h : MapInv cfg w) (hfew : w.accepted < 2 ^ 31) (hc : c < w.accepted)
    {e : ServerEffect n} (herase : w.removeConnectionInLoop c = .ok e) :
    w.connections (w.conns c).name = some c ∧
      ∀ name d, d ≠ c → (e.world.connections name = some d ↔ w.connections name = some d) := by
  simp only [ServerWorld.removeConnectionInLoop, bind_eq_ok, check_eq_ok, Except.ok.injEq] at herase
  obtain ⟨-, hfound, rfl⟩ := herase
  have hown : ∀ d, w.connections (w.conns c).name = some d → d = c := by
    intro d hd
    obtain ⟨hdacc, hname, -⟩ := (h.map hfew _ d).mp hd
    exact (h.name_injective hfew hc hdacc hname).symm
  have hentry : w.connections (w.conns c).name = some c := by
    cases hmap : w.connections (w.conns c).name with
    | none => simp [hmap] at hfound
    | some d => rw [hown d hmap]
  refine ⟨hentry, fun name d hne => ?_⟩
  show Function.update w.connections (w.conns c).name none name = some d ↔ _
  by_cases hname : name = (w.conns c).name
  · subst hname
    rw [Function.update_self, hentry]
    simp [hne.symm]
  · rw [Function.update_of_ne hname]

end Map

/-- **Connection names never collide.** For a server of any name on any address, in every run
that has accepted fewer than `2^31` connections: the name of each connection ends in the whole
suffix, no two connections have one name, the next assignment to `_connections` finds no entry
under its key, and an erasure takes out the entry of its own connection and no other. -/
theorem connection_names_distinct {n : Nat} {inetNtop : IpAddr → List Char}
    (hntop : ∀ ip, (inetNtop ip).length ≤ 45) (nameArg : List Char) (listenAddr : InetAddress)
    {s : ServerProcess n}
    (h : (serverApp n (.ofListenAddr inetNtop hntop nameArg listenAddr)).system.Reachable s)
    (hfew : s.world.accepted < 2 ^ 31) :
    (∃ ipPort, listenAddr.toIpPort inetNtop = .ok ipPort ∧
      ∀ c, c < s.world.accepted →
        (s.world.conns c).name = nameArg ++ ('-' :: ipPort ++ '#' :: Nat.toDigits 10 (c + 1))) ∧
    (∀ c d, c < s.world.accepted → d < s.world.accepted → c ≠ d →
      (s.world.conns c).name ≠ (s.world.conns d).name) ∧
    (s.world.accepted + 1 < 2 ^ 31 → ∀ l sockfd,
      let w := (s.world.newConnection (.ofListenAddr inetNtop hntop nameArg listenAddr) l sockfd).world
      s.world.connections (w.conns s.world.accepted).name = none ∧
        w.connections (w.conns s.world.accepted).name = some s.world.accepted) ∧
    (∀ c e, c < s.world.accepted → s.world.removeConnectionInLoop c = .ok e →
      s.world.connections (s.world.conns c).name = some c ∧
        ∀ name d, d ≠ c → (e.world.connections name = some d ↔ s.world.connections name = some d)) := by
  have hmap := reachable_mapInv h
  refine ⟨⟨_, InetAddress.toIpPort_eq hntop listenAddr, fun c hc => ?_⟩, ?_, ?_, ?_⟩
  · rw [hmap.name c hc, ServerConfig.connName, suffix_eq _ (by omega)]
    rfl
  · intro c d hc hd hne heq
    exact hne (hmap.name_injective hfew hc hd heq)
  · intro hnext l sockfd
    simp only [ServerWorld.newConnection, Function.update_self, and_true]
    exact hmap.next_absent hnext
  · intro c e hc herase
    exact hmap.removes_own hfew hc herase

/-- One server, two connections accepted one after the other. -/
def twoAcceptedRun : List (ServerLabel 0) :=
  [.call 0 .quiet, .start 0, .test 0,
    .poll 0 [.handleActiveChannels [(none, POLLIN)]], .call 0 .quiet, .call 0 .quiet,
    .call 0 { ServerOracle.quiet with accept := some 7 }, .call 0 .quiet, .call 0 .quiet,
    .call 0 .quiet, .handled 0, .swap 0, .passed 0, .test 0,
    .poll 0 [.handleActiveChannels [(none, POLLIN)]], .call 0 .quiet, .call 0 .quiet,
    .call 0 { ServerOracle.quiet with accept := some 8 }, .call 0 .quiet]

/-- What `inet_ntop` writes for the wildcard addresses. -/
def ntopAny : IpAddr → List Char
  | .inet _ => "0.0.0.0".toList
  | .inet6 _ => "::".toList

theorem length_ntopAny_le (ip : IpAddr) : (ntopAny ip).length ≤ 45 := by
  cases ip with
  | inet _ => exact Nat.le_of_ble_eq_true rfl
  | inet6 _ => exact Nat.le_of_ble_eq_true rfl

/-- The server of `main.cpp` on `0.0.0.0:2009`. -/
theorem connection_names_distinct_two :
    ∃ s : ServerProcess 0,
      (serverApp 0 (.ofListenAddr ntopAny length_ntopAny_le "TcpServer".toList
        ⟨.inet 0, hostToNetwork 2 2009⟩)).system.Reachable s ∧
      s.world.accepted = 2 ∧ (s.world.conns 0).name ≠ (s.world.conns 1).name := by
  obtain ⟨s, hs, hp⟩ := System.exists_reachable_of_replay
    (serverApp 0 (.ofListenAddr ntopAny length_ntopAny_le "TcpServer".toList
      ⟨.inet 0, hostToNetwork 2 2009⟩)).system
    twoAcceptedRun (serverStart 0) (fun s => s.world.accepted == 2)
    (serverStart_init 0) (by decide +kernel)
  have hacc : s.world.accepted = 2 := by simpa using hp
  obtain ⟨-, hdiffer, -⟩ :=
    connection_names_distinct length_ntopAny_le _ _ hs (by rw [hacc]; decide)
  exact ⟨s, hs, hacc, hdiffer 0 1 (by rw [hacc]; decide) (by rw [hacc]; decide) (by decide)⟩

end Reactor

import PocketKv.Client.Dispatch
import PocketKv.Replication.SlaveOffset

/-!
# Clients of a replica
-/

namespace PocketKv.Client

open Library Persistence Resp Store
open Replication (Follower)

/-! ### Commands that write -/

/-- The names of the commands that write. -/
def writeCmds : List String :=
  ["SET", "MSET", "MOD", "DEL", "EXPIRE", "PERSIST", "SETEX", "RSET", "RMSET", "RMOD", "RDEL", "REXPIRE", "RPERSIST",
    "RSETEX", "HSET", "HMSET", "HMOD", "HDEL", "HEXPIRE", "HPERSIST", "HSETEX", "XSET", "XMSET", "XMOD", "XDEL",
    "XEXPIRE", "XPERSIST", "XSETEX", "LOCK", "UNLOCK", "RENEW", "DOCSET", "DOCDEL", "DOCDROP"]

/-- The command writes. -/
def isWriteCmd (cmd : Bytes) : Bool := writeCmds.any fun c => cmd == str c

/-- The names of the commands that set up replication, persistence and configuration. -/
def adminCmds : List String :=
  ["REPLSYNC", "REPLACK", "REPLDONE", "KPROBEMR", "SAVE", "BGSAVE", "BGREWRITEAOF", "APPENDFSYNC", "CONFIG", "SNAPRULE",
    "SNAPRULES", "SNAPRULECLEAR", "SLAVEOF"]

/-- The command sets something up. -/
def isAdminCmd (cmd : Bytes) : Bool := adminCmds.any fun c => cmd == str c

/-- The command only reads. -/
def readsOnly : Cmd → Bool
  | .control | .owner _ | .docexist _ | .doccount _ | .read | .get .. | .mget .. | .exist .. | .ttl .. | .unknown _ => true
  | _ => false

lemma exec_readsOnly {c : Cmd} (now : ℤ) (s : Db) (h : readsOnly c = true) :
    (exec now s c).wrote = false ∧ Expires now s (exec now s c).db := by
  cases c with
  | control | docexist d | doccount d | read | unknown arity => exact ⟨rfl, .refl now s⟩
  | owner k => exact ⟨rfl, .one now s .array k⟩
  | get e k | exist e k | ttl e k => exact ⟨rfl, .one now s e k⟩
  | mget e ks =>
    cases ks with
    | none => exact ⟨rfl, .refl now s⟩
    | some ks => exact ⟨rfl, _, rfl⟩
  | lock | unlock | renew | docset | docdel | docdrop | set | mset | mod | del | expire | setex | persist => cases h

lemma isWriteCmd_of_strip {cmd : Bytes} {op : String}
    (hop : op ∈ ["SET", "MSET", "MOD", "DEL", "EXPIRE", "SETEX", "PERSIST"]) (h : stripPrefix cmd = str op) :
    isWriteCmd cmd = true := by
  have hall : ∀ o ∈ ["SET", "MSET", "MOD", "DEL", "EXPIRE", "SETEX", "PERSIST"],
      isWriteCmd (str o) = true ∧ isWriteCmd (82 :: str o) = true ∧ isWriteCmd (72 :: str o) = true ∧
        isWriteCmd (88 :: str o) = true := by decide +kernel
  obtain ⟨harray, hrbtree, hhash, hskip⟩ := hall op hop
  rw [stripPrefix] at h
  split at h
  · rename_i hletter
    cases cmd with
    | nil => simp at hletter
    | cons b t =>
      obtain rfl : t = str op := h
      simp only [List.head?_cons, Option.some.injEq] at hletter
      rcases hletter with rfl | rfl | rfl
      · exact hrbtree
      · exact hhash
      · exact hskip
  · rwa [h]

lemma readsOnly_ite {p : Prop} [Decidable p] {a b : Cmd} (ha : p → readsOnly a = true) (hb : readsOnly b = true) :
    readsOnly (if p then a else b) = true := by
  split
  · rename_i hp
    exact ha hp
  · exact hb

variable {argv : List Bytes}

lemma decode_readsOnly (h : isWriteCmd (cmdName argv) = false) : readsOnly (decode argv) = true := by
  have hname {c : String} {p : Prop} (hc : isWriteCmd (str c) = true) (hp : cmdName argv = str c ∧ p) : False := by
    rw [hp.1, hc] at h
    cases h
  have hop {o : String} (ho : o ∈ ["SET", "MSET", "MOD", "DEL", "EXPIRE", "SETEX", "PERSIST"])
      (heq : stripPrefix (cmdName argv) = str o) : False := by
    rw [isWriteCmd_of_strip ho heq] at h
    cases h
  refine readsOnly_ite (fun _ => rfl) ?_
  refine readsOnly_ite (fun hp => (hname (by decide) hp).elim) ?_
  refine readsOnly_ite (fun hp => (hname (by decide) hp).elim) ?_
  refine readsOnly_ite (fun hp => (hname (by decide) hp).elim) ?_
  refine readsOnly_ite (fun _ => rfl) ?_
  refine readsOnly_ite (fun hp => (hname (by decide) hp).elim) ?_
  refine readsOnly_ite (fun _ => rfl) ?_
  refine readsOnly_ite (fun hp => (hname (by decide) hp).elim) ?_
  refine readsOnly_ite (fun hp => (hname (by decide) hp).elim) ?_
  refine readsOnly_ite (fun _ => rfl) (readsOnly_ite (fun _ => rfl) (readsOnly_ite (fun _ => rfl) ?_))
  -- the engine section
  refine readsOnly_ite (fun hp => (hop (by decide) hp.1).elim) ?_
  refine readsOnly_ite (fun hp => (hop (by decide) hp).elim) ?_
  refine readsOnly_ite (fun hp => (hop (by decide) hp.1).elim) ?_
  refine readsOnly_ite (fun hp => (hop (by decide) hp.1).elim) ?_
  refine readsOnly_ite (fun _ => rfl) (readsOnly_ite (fun _ => rfl) (readsOnly_ite (fun _ => rfl) ?_))
  refine readsOnly_ite (fun _ => rfl) ?_
  refine readsOnly_ite (fun hp => (hop (by decide) hp.1).elim) ?_
  refine readsOnly_ite (fun hp => (hop (by decide) hp.1).elim) ?_
  refine readsOnly_ite (fun _ => rfl) ?_
  exact readsOnly_ite (fun hp => (hop (by decide) hp.1).elim) rfl

/-! ### The replica -/

/-- A client's command on the replica, as `handle_parsed_command` has it after the check. -/
def serve (clock : ℕ → ℤ) (ebpfTcp : Bool) (argv : List Bytes) (raw : Bytes) (F : Follower) : Follower :=
  let o := exec (clock F.count) F.db (decode argv)
  let F := { F with db := o.db, count := F.count + 1 }
  if o.wrote then
    -- only the engine section counts what comes from the proxy
    (if ebpfTcp && (decode argv).engineWrite then F.noteApplied raw.length else F).append raw
  else F

section Front

variable (clock : ℕ → ℤ) (cfg : ServerCfg) (admin : Rest Follower) (answer : List Bytes → Host Follower → Peer)

/-- What `handle_parsed_command` does on a replica after `AUTH`. No write is published there. -/
def slaveRest : Rest Follower := fun argv raw S =>
  if isAdminCmd (cmdName argv) then admin argv raw S
  else
    ({ S with
        peer := answer argv S
        side := { S.side with world := serve clock cfg.ebpfTcp argv raw S.side.world } }, false)

/-- The connections of a server. -/
structure Front (σ : Type*) where
  peers : ℕ → Peer
  side : Side σ

variable {σ : Type*} (rest : Rest σ)

/-- One connection. -/
def Front.host (F : Front σ) (k : ℕ) : Host σ := ⟨F.peers k, F.side⟩

/-- Bytes come in on a connection. -/
def Front.onRead (F : Front σ) (i : ℕ × Bytes) : Front σ :=
  let S := (F.host i.1).receive rest cfg i.1 [i.2]
  ⟨Function.update F.peers i.1 S.peer, S.side⟩

/-- The events in them. -/
def Front.events (F : Front σ) (i : ℕ × Bytes) : List Event := (F.host i.1).events cfg [i.2]

end Front

/-- The name of the command. -/
def eventName : Event → Option Bytes
  | .command argv _ => some (cmdName argv)
  | _ => none

/-- The event is not `SLAVEOF`. -/
def notSlaveof (e : Event) : Bool := eventName e != some (str "SLAVEOF")

/-- The event is no write and sets nothing up. -/
def notWrite (e : Event) : Bool := (eventName e).all fun cmd => !isWriteCmd cmd && !isAdminCmd cmd

/-- Between two states of the replica only keys past their deadlines have gone. -/
structure Undisturbed (clock : ℕ → ℤ) (F G : Follower) : Prop where
  db : Relation.ReflTransGen (fun s s' => ∃ i, Expires (clock i) s s') F.db G.db
  aof : G.aof = F.aof
  applied : G.applied = F.applied
  durable : G.durable = F.durable

section Steps

variable {clock : ℕ → ℤ} {cfg : ServerCfg} {admin : Rest Follower} {answer : List Bytes → Host Follower → Peer}
  {S : Host Follower}

lemma Undisturbed.refl (F : Follower) : Undisturbed clock F F := ⟨.refl, rfl, rfl, rfl⟩

lemma Undisturbed.trans {F G H : Follower} (h : Undisturbed clock F G) (h' : Undisturbed clock G H) :
    Undisturbed clock F H :=
  ⟨h.db.trans h'.db, h'.aof.trans h.aof, h'.applied.trans h.applied, h'.durable.trans h.durable⟩

lemma undisturbed_serve (raw : Bytes) (F : Follower)
    (h : isWriteCmd (cmdName argv) = false) : Undisturbed clock F (serve clock cfg.ebpfTcp argv raw F) := by
  obtain ⟨hwrote, hdb⟩ := exec_readsOnly (clock F.count) F.db (decode_readsOnly h)
  rw [serve]
  simp only [hwrote, Bool.false_eq_true, if_false]
  exact ⟨.single ⟨_, hdb⟩, rfl, rfl, rfl⟩

lemma Peer.not_blocked {P : Peer} (hslave : cfg.slave = true) (hcheck : cfg.ebpfTcp = false)
    (h : P.answered cfg argv = none) : isReadonlySlaveBlocked (cmdName argv) = false := by
  rw [← Bool.not_eq_true]
  intro hblocked
  simp only [Peer.answered, hslave, hcheck, hblocked, and_self, if_true] at h
  split_ifs at h

lemma listed_readsOnly {cmd : Bytes} (h : isReadonlySlaveBlocked cmd = false) (hne : cmd ≠ str "SLAVEOF") :
    isWriteCmd cmd = false ∧ isAdminCmd cmd = false := by
  have hall : ∀ c ∈ readonlyCmds, c ≠ "SLAVEOF" → isWriteCmd (str c) = false ∧ isAdminCmd (str c) = false := by
    decide +kernel
  obtain ⟨c, hc, heq⟩ : ∃ c ∈ readonlyCmds, cmd = str c := by
    simpa [isReadonlySlaveBlocked] using h
  subst heq
  refine hall c hc ?_
  rintro rfl
  exact hne rfl

lemma undisturbed_handle (k : ℕ) {e : Event} (hslave : cfg.slave = true)
    (hno : notSlaveof e = true) (hwrite : cfg.ebpfTcp = true → notWrite e = true) :
    Undisturbed clock S.side.world (S.handle (slaveRest clock cfg admin answer) cfg k e).side.world := by
  cases e with
  | reply text => exact .refl _
  | control c => cases c <;> exact .refl _
  | command argv raw =>
    have hskip (T : Host Follower) : T.publishSkip cfg k raw = T := by
      simp [Host.publishSkip, Host.publishes, hslave]
    rw [Host.handle, Host.command, Host.handleParsedCommand]
    simp only [hskip, ite_self]
    split
    · exact .refl _
    · rename_i hanswered
      have hname : isWriteCmd (cmdName argv) = false ∧ isAdminCmd (cmdName argv) = false := by
        cases hcheck : cfg.ebpfTcp with
        | false =>
          refine listed_readsOnly (Peer.not_blocked hslave hcheck hanswered) ?_
          simpa [notSlaveof, eventName] using hno
        | true => simpa [notWrite, eventName] using hwrite hcheck
      simp only [slaveRest, hname.2, Bool.false_eq_true, if_false]
      exact undisturbed_serve raw _ hname.1

lemma undisturbed_foldl (k : ℕ) {es : List Event} (hslave : cfg.slave = true)
    (hno : ∀ e ∈ es, notSlaveof e = true) (hwrite : cfg.ebpfTcp = true → ∀ e ∈ es, notWrite e = true) :
    Undisturbed clock S.side.world
      (es.foldl (Host.handle (slaveRest clock cfg admin answer) cfg k) S).side.world := by
  induction es generalizing S with
  | nil => exact .refl _
  | cons e es ih =>
    have hfirst : Undisturbed clock S.side.world
        (S.handle (slaveRest clock cfg admin answer) cfg k e).side.world :=
      undisturbed_handle k hslave (hno e (.head _)) fun h => hwrite h e (.head _)
    exact hfirst.trans (ih (fun e' he' => hno e' (.tail _ he')) fun h e' he' => hwrite h e' (.tail _ he'))

end Steps

/-- **A replica is read-only for its clients**, as long as no write and no command that sets something up comes
while the realtime transport is `ebpf+tcp`. -/
theorem slave_readonly (clock : ℕ → ℤ) (cfg : ServerCfg) (admin : Rest Follower)
    (answer : List Bytes → Host Follower → Peer) (F : Front Follower) (ins : List (ℕ × Bytes))
    (hslave : cfg.slave = true)
    (hno : GuardedRun (Front.onRead cfg (slaveRest clock cfg admin answer))
      (fun F i => ∀ e ∈ F.events cfg i, notSlaveof e = true) F ins)
    (hwrite : GuardedRun (Front.onRead cfg (slaveRest clock cfg admin answer))
      (fun F i => cfg.ebpfTcp = true → ∀ e ∈ F.events cfg i, notWrite e = true) F ins) :
    Undisturbed clock F.side.world (ins.foldl (Front.onRead cfg (slaveRest clock cfg admin answer)) F).side.world := by
  induction ins generalizing F with
  | nil => exact .refl _
  | cons i ins ih =>
    have hread : Undisturbed clock F.side.world
        (F.onRead cfg (slaveRest clock cfg admin answer) i).side.world := by
      rw [Front.onRead, Host.receive_eq]
      exact undisturbed_foldl (S := F.host i.1) i.1 hslave hno.1 hwrite.1
    exact hread.trans (ih _ hno.2 hwrite.2)

/-- A replica with the transport `tcp` and a new connection for every cookie. -/
def tcpSlave : ServerCfg := { slave := true }

/-- A replica with the transport `ebpf+tcp`. -/
def ebpfTcpSlave : ServerCfg := { slave := true, repl := { realtime := str "ebpf+tcp" } }

/-- A new replica. -/
def emptyFront : Front Follower := ⟨fun _ => {}, { world := {} }⟩

/-- A replica on which the commands that set something up do nothing, and which does not answer. -/
def mute (cfg : ServerCfg) : Rest Follower := slaveRest (fun _ => 0) cfg (fun _ _ S => (S, false)) fun _ S => S.peer

/-- Two clients on a replica. -/
def twoClients : List (ℕ × Bytes) := [(1, str "SET a 1\r\nGE"), (2, str "DEL a\r\n"), (1, str "T a\r\n")]

theorem slave_readonly_two :
    tcpSlave.slave = true ∧
      GuardedRun (Front.onRead tcpSlave (mute tcpSlave)) (fun F i => ∀ e ∈ F.events tcpSlave i, notSlaveof e = true)
        emptyFront twoClients ∧
      Undisturbed (fun _ => 0) {} (twoClients.foldl (Front.onRead tcpSlave (mute tcpSlave)) emptyFront).side.world := by
  have hno : GuardedRun (Front.onRead tcpSlave (mute tcpSlave))
      (fun F i => ∀ e ∈ F.events tcpSlave i, notSlaveof e = true) emptyFront twoClients := by decide +kernel
  have hcheck : tcpSlave.ebpfTcp ≠ true := by decide
  refine ⟨rfl, hno, ?_⟩
  exact slave_readonly (fun _ => 0) tcpSlave (fun _ _ S => (S, false)) (fun _ S => S.peer) emptyFront twoClients rfl hno
    (.of_forall (fun _ _ h => absurd h hcheck) _ _)

/-- With `ebpf+tcp` a client's `SET` changes the data, the log and the applied offset. -/
theorem slave_written :
    let F := (emptyFront.onRead ebpfTcpSlave (mute ebpfTcpSlave) (1, str "SET a 1\r\n")).side.world
    engineGet F.db .array (str "a") = some (str "1") ∧ F.aof ≠ {} ∧ F.applied = 9 ∧
      emptyFront.side.world.applied = 0 ∧ engineGet emptyFront.side.world.db .array (str "a") = none := by
  decide +kernel

end PocketKv.Client

import Mathlib.Data.List.AList
import DcHub.Irc.Relay

/-! # The name registry and the peer directory

The hub's three maps behind one lock: reservations by name, and the live peers
by name and by SID. A handshake reserves a name, then either gives it back with
the `unbind` it was handed or, at the end of `ircAccept`, promotes it into the
two indexes; `hub.leave` takes the peer out again. Only the promotion is in the
source (`ircAccept`); `nameAvailable`, `reserveName`, its `unbind`, `nextSID`,
`Peers` and `leave` are modelled from the spec's NameRegistry and HubCore. A
reservation records the connection holding it, which Go keeps in the `unbind`
closure.

Other connections run their own critical sections between any two of ours. A
connection's entries are in one of three states, `Clear`, `Reserving` and
`Live`, and every operation of another connection keeps each of them.
-/

namespace DcHub.Hub

open DcHub.Irc (Peer IrcPeer)

/-- `h.peers`: who holds each reserved name, the live peers by name and by SID,
and the last SID handed out. -/
structure Registry where
  reserved : AList (fun _ : String => Nat)
  byName : AList (fun _ : String => Peer)
  bySID : AList (fun _ : Nat => Peer)
  lastSID : Nat

namespace Registry

/-- Modelled from the spec: `nameAvailable(name, nil)` (NameRegistry
`available`), true when no reservation and no live peer holds the name. -/
def nameAvailable (r : Registry) (name : String) : Bool :=
  (r.reserved.lookup name).isNone && (r.byName.lookup name).isNone

/-- Modelled from the spec: `reserveName` (NameRegistry `reserve`), which
checks the name and reserves it for `owner` in one critical section; `none` is
Go's `ok = false`. -/
def reserveName (r : Registry) (name : String) (owner : Nat) : Option Registry :=
  if r.nameAvailable name then some { r with reserved := r.reserved.insert name owner } else none

/-- Modelled from the spec: the `unbind` a reservation comes with, which
releases the name and does nothing once it has been promoted. -/
def unbind (r : Registry) (name : String) : Registry :=
  { r with reserved := r.reserved.erase name }

/-- Modelled from the spec: `nextSID` (SessionIDAllocator `next`), a counter. -/
def nextSID (r : Registry) : Nat × Registry :=
  (r.lastSID + 1, { r with lastSID := r.lastSID + 1 })

/-- Modelled from the spec: `Peers()` (PeerDirectory `snapshot`), the live
peers. -/
def peers (r : Registry) : List Peer := r.byName.entries.map Sigma.snd

/-- The promotion in `ircAccept`: `delete(reserved, name)`, then the peer under
its name in `byName` and under its SID in `bySID`. -/
def accept (r : Registry) (name : String) (sid : Nat) (peer : Peer) : Registry :=
  { r with reserved := r.reserved.erase name, byName := r.byName.insert name peer,
           bySID := r.bySID.insert sid peer }

/-- Modelled from the spec: `hub.leave(peer, sid, name)` (HubCore `leave`),
which drops the entries that are still the peer's, so that a second call finds
nothing to drop. -/
def leave (r : Registry) (peer : Peer) (sid : Nat) (name : String) : Registry :=
  { r with byName := if r.byName.lookup name = some peer then r.byName.erase name else r.byName,
           bySID := if r.bySID.lookup sid = some peer then r.bySID.erase sid else r.bySID }

section
variable (r : Registry) (name : String) (sid : Nat) (peer : Peer)

@[simp] theorem unbind_reserved : (r.unbind name).reserved = r.reserved.erase name := rfl
@[simp] theorem unbind_byName : (r.unbind name).byName = r.byName := rfl
@[simp] theorem unbind_bySID : (r.unbind name).bySID = r.bySID := rfl
@[simp] theorem nextSID_reserved : r.nextSID.2.reserved = r.reserved := rfl
@[simp] theorem nextSID_byName : r.nextSID.2.byName = r.byName := rfl
@[simp] theorem nextSID_bySID : r.nextSID.2.bySID = r.bySID := rfl
@[simp] theorem accept_reserved : (r.accept name sid peer).reserved = r.reserved.erase name := rfl
@[simp] theorem accept_byName : (r.accept name sid peer).byName = r.byName.insert name peer := rfl
@[simp] theorem accept_bySID : (r.accept name sid peer).bySID = r.bySID.insert sid peer := rfl
@[simp] theorem leave_reserved : (r.leave peer sid name).reserved = r.reserved := rfl
theorem leave_byName : (r.leave peer sid name).byName =
    if r.byName.lookup name = some peer then r.byName.erase name else r.byName := rfl
theorem leave_bySID : (r.leave peer sid name).bySID =
    if r.bySID.lookup sid = some peer then r.bySID.erase sid else r.bySID := rfl

theorem reserveName_getD_byName (owner : Nat) :
    ((r.reserveName name owner).getD r).byName = r.byName := by
  unfold reserveName; split_ifs <;> rfl

theorem reserveName_getD_bySID (owner : Nat) :
    ((r.reserveName name owner).getD r).bySID = r.bySID := by
  unfold reserveName; split_ifs <;> rfl

end

theorem reserveName_eq_none {r : Registry} {name : String} {owner : Nat}
    (h : r.reserveName name owner = none) : r.nameAvailable name = false := by
  unfold reserveName at h
  split_ifs at h with ha
  simpa using ha

theorem reserveName_eq_some {r r' : Registry} {name : String} {owner : Nat}
    (h : r.reserveName name owner = some r') :
    r.reserved.lookup name = none ∧ r.byName.lookup name = none ∧
      r' = { r with reserved := r.reserved.insert name owner } := by
  unfold reserveName nameAvailable at h
  split_ifs at h with ha
  · simp only [Bool.and_eq_true, Option.isNone_iff_eq_none] at ha
    exact ⟨ha.1, ha.2, (Option.some.inj h).symm⟩

/-! ### The directory -/

/-- A promotion under a name no live peer has puts the peer at the head of the
directory, as `AList.insert` does. -/
theorem peers_accept {r : Registry} {name : String} {sid : Nat} {peer : Peer}
    (h : r.byName.lookup name = none) : (r.accept name sid peer).peers = peer :: r.peers := by
  rw [peers, accept_byName, AList.insert_entries_of_neg (AList.lookup_eq_none.1 h)]
  rfl

/-- Erasing the entry of `name` drops `q` from the values when the entries
holding `q` are exactly those of `name`. -/
theorem map_snd_kerase {q : Peer} {name : String} :
    ∀ {l : List (Σ _ : String, Peer)}, (∀ e ∈ l, e.2 = q ↔ e.1 = name) →
      (l.kerase name).map Sigma.snd = (l.map Sigma.snd).erase q
  | [], _ => rfl
  | e :: l, h => by
    have he := h e (List.mem_cons_self e l)
    by_cases hn : e.1 = name
    · rw [List.kerase_cons_eq hn.symm, List.map_cons, he.2 hn, List.erase_cons_head]
    · rw [List.kerase_cons_ne (Ne.symm hn), List.map_cons, List.map_cons,
        List.erase_cons_tail (by simpa using mt he.1 hn),
        map_snd_kerase fun e' he' => h e' (List.mem_cons_of_mem e he')]

/-! ### A connection's entries -/

/-- Nothing in the registry is `me`'s: no reservation, and no peer of `me` in
either index. -/
structure Clear (me : Nat) (r : Registry) : Prop where
  reserved : ∀ n, r.reserved.lookup n ≠ some me
  byName : ∀ n p, r.byName.lookup n = some p → p.id ≠ me
  bySID : ∀ s p, r.bySID.lookup s = some p → p.id ≠ me

/-- `me` holds the reservation of `name` and nothing else. -/
structure Reserving (me : Nat) (name : String) (r : Registry) : Prop where
  held : r.reserved.lookup name = some me
  reserved : ∀ n, n ≠ name → r.reserved.lookup n ≠ some me
  byName : ∀ n p, r.byName.lookup n = some p → p.id ≠ me
  bySID : ∀ s p, r.bySID.lookup s = some p → p.id ≠ me

/-- `me`'s peer `p` is live: its name is no longer reserved, `byName` has it
under its name, and any entry of `me` is `p` under its name or its SID. -/
structure Live (me : Nat) (p : IrcPeer) (r : Registry) : Prop where
  mine : p.id = me
  unreserved : r.reserved.lookup p.name = none
  named : r.byName.lookup p.name = some (.irc p)
  reserved : ∀ n, r.reserved.lookup n ≠ some me
  byName : ∀ n q, r.byName.lookup n = some q → q.id = me → n = p.name
  bySID : ∀ s q, r.bySID.lookup s = some q → q.id = me → s = p.sid ∧ q = .irc p

theorem Clear.reserveName {me : Nat} {r r' : Registry} {name : String} (hc : r.Clear me)
    (h : r.reserveName name me = some r') : r'.Reserving me name := by
  obtain ⟨-, -, rfl⟩ := reserveName_eq_some h
  refine ⟨AList.lookup_insert _, fun n hn => ?_, hc.byName, hc.bySID⟩
  simpa [AList.lookup_insert_ne hn] using hc.reserved n

/-- While `me` holds a reservation, the directory lists no peer of `me`. -/
theorem Reserving.peers_ne {me : Nat} {name : String} {r : Registry}
    (h : r.Reserving me name) : ∀ q ∈ r.peers, q.id ≠ me := by
  intro q hq
  obtain ⟨⟨n, q'⟩, hmem, rfl⟩ := List.mem_map.1 hq
  exact h.byName n q' (AList.mem_lookup_iff.2 hmem)

theorem Reserving.nextSID {me : Nat} {r : Registry} {name : String} (h : r.Reserving me name) :
    r.nextSID.2.Reserving me name :=
  ⟨h.held, h.reserved, h.byName, h.bySID⟩

theorem Reserving.unbind {me : Nat} {r : Registry} {name : String} (h : r.Reserving me name) :
    (r.unbind name).Clear me := by
  refine ⟨fun n => ?_, h.byName, h.bySID⟩
  by_cases hn : n = name
  · subst hn; simp [AList.lookup_erase]
  · simpa [AList.lookup_erase_ne hn] using h.reserved n hn

theorem Reserving.accept {me : Nat} {r : Registry} {p : IrcPeer} (h : r.Reserving me p.name)
    (hp : p.id = me) : (r.accept p.name p.sid (.irc p)).Live me p := by
  refine ⟨hp, AList.lookup_erase _ _, AList.lookup_insert _, fun n => ?_, fun n q hq hid => ?_,
    fun s q hq hid => ?_⟩
  · by_cases hn : n = p.name
    · rw [hn, accept_reserved, AList.lookup_erase]; simp
    · simpa [AList.lookup_erase_ne hn] using h.reserved n hn
  · by_contra hn
    rw [accept_byName, AList.lookup_insert_ne hn] at hq
    exact h.byName n q hq hid
  · by_cases hs : s = p.sid
    · subst hs
      simp only [accept_bySID, AList.lookup_insert, Option.some.injEq] at hq
      exact ⟨rfl, hq.symm⟩
    · rw [accept_bySID, AList.lookup_insert_ne hs] at hq
      exact absurd hid (h.bySID s q hq)

/-- The leave of a live peer drops it from the directory: no other name has it. -/
theorem Live.peers_leave {me : Nat} {r : Registry} {p : IrcPeer} (h : r.Live me p) :
    (r.leave (.irc p) p.sid p.name).peers = r.peers.erase (.irc p) := by
  unfold peers
  rw [leave_byName, if_pos h.named]
  refine map_snd_kerase fun e he => ⟨fun hq => ?_, fun hn => ?_⟩
  · exact h.byName e.1 e.2 (AList.mem_lookup_iff.2 he) (by rw [hq]; exact h.mine)
  · have hl := AList.mem_lookup_iff.2 he
    rw [hn, h.named] at hl
    exact (Option.some.inj hl).symm

theorem Live.leave {me : Nat} {r : Registry} {p : IrcPeer} (h : r.Live me p) :
    (r.leave (.irc p) p.sid p.name).Clear me := by
  refine ⟨h.reserved, fun n q hq hid => ?_, fun s q hq hid => ?_⟩
  · rw [leave_byName, if_pos h.named] at hq
    by_cases hn : n = p.name
    · subst hn; simp [AList.lookup_erase] at hq
    · rw [AList.lookup_erase_ne hn] at hq
      exact hn (h.byName n q hq hid)
  · rw [leave_bySID] at hq
    split_ifs at hq with hs
    · by_cases e : s = p.sid
      · subst e; simp [AList.lookup_erase] at hq
      · rw [AList.lookup_erase_ne e] at hq
        exact e (h.bySID s q hq hid).1
    · obtain ⟨rfl, rfl⟩ := h.bySID s q hq hid
      exact hs hq

end Registry

/-- No name is both reserved and the name of a live peer. -/
def Registry.Exclusive (r : Registry) : Prop :=
  ∀ n, r.reserved.lookup n = none ∨ r.byName.lookup n = none

/-! ### Other connections -/

/-- A critical section of another connection: a reservation, the `unbind` of
a name it holds, a SID, the promotion of a name it holds, or a leave. -/
inductive RegOp where
  | reserve (name : String) (owner : Nat)
  | unbind (name : String) (owner : Nat)
  | nextSID
  | accept (name : String) (sid : Nat) (peer : Peer)
  | leave (peer : Peer) (sid : Nat) (name : String)

namespace RegOp

def apply : RegOp → Registry → Registry
  | .reserve name owner, r => (r.reserveName name owner).getD r
  | .unbind name owner, r => if r.reserved.lookup name = some owner then r.unbind name else r
  | .nextSID, r => r.nextSID.2
  | .accept name sid peer, r =>
    if r.reserved.lookup name = some peer.id then r.accept name sid peer else r
  | .leave peer sid name, r => r.leave peer sid name

/-- The operation is another connection's: it holds no reservation of `me` and
names no peer of `me`. -/
def Foreign (me : Nat) : RegOp → Prop
  | .reserve _ owner | .unbind _ owner => owner ≠ me
  | .nextSID => True
  | .accept _ _ peer | .leave peer _ _ => peer.id ≠ me

variable {me : Nat} {op : RegOp} {r : Registry}

/-- What another connection does to the reservations: it adds its own, and
drops only its own. -/
theorem reserved_cases (h : op.Foreign me) :
    (op.apply r).reserved = r.reserved ∨
      (∃ n o, o ≠ me ∧ r.reserved.lookup n = none ∧ r.byName.lookup n = none ∧
        (op.apply r).reserved = r.reserved.insert n o) ∨
      (∃ n o, o ≠ me ∧ r.reserved.lookup n = some o ∧ (op.apply r).reserved = r.reserved.erase n) := by
  cases op with
  | reserve name owner =>
    cases hr : r.reserveName name owner with
    | none => simp [apply, hr]
    | some r' =>
      obtain ⟨h1, h2, rfl⟩ := Registry.reserveName_eq_some hr
      exact .inr (.inl ⟨name, owner, h, h1, h2, by simp [apply, hr]⟩)
  | unbind name owner =>
    simp only [apply]
    split_ifs with ho
    · exact .inr (.inr ⟨name, owner, h, ho, rfl⟩)
    · exact .inl rfl
  | nextSID => exact .inl rfl
  | accept name sid peer =>
    simp only [apply]
    split_ifs with ho
    · exact .inr (.inr ⟨name, peer.id, h, ho, rfl⟩)
    · exact .inl rfl
  | leave => exact .inl rfl

/-- Another connection neither takes nor drops a reservation of `me`. -/
theorem lookup_reserved_me (h : op.Foreign me) (n : String) :
    (op.apply r).reserved.lookup n = some me ↔ r.reserved.lookup n = some me := by
  rcases reserved_cases (r := r) h with he | ⟨m, o, ho, hm, -, he⟩ | ⟨m, o, ho, hm, he⟩
  · rw [he]
  · rw [he]
    by_cases hn : n = m
    · subst hn; simp [AList.lookup_insert, hm, ho]
    · rw [AList.lookup_insert_ne hn]
  · rw [he]
    by_cases hn : n = m
    · subst hn; simp [AList.lookup_erase, hm, ho]
    · rw [AList.lookup_erase_ne hn]

/-- What another connection does to the indexes: it adds peers that are not
`me`'s, and drops entries. -/
theorem byName_cases (h : op.Foreign me) :
    ∀ n q, (op.apply r).byName.lookup n = some q → r.byName.lookup n = some q ∨ q.id ≠ me := by
  intro n q hq
  cases op with
  | reserve name owner => exact .inl (by rwa [apply, Registry.reserveName_getD_byName] at hq)
  | unbind name owner => simp only [apply] at hq; split_ifs at hq <;> exact .inl hq
  | nextSID => exact .inl hq
  | accept name sid peer =>
    simp only [apply] at hq
    split_ifs at hq
    · by_cases hn : n = name
      · subst hn
        simp only [Registry.accept_byName, AList.lookup_insert, Option.some.injEq] at hq
        exact .inr (hq ▸ h)
      · exact .inl (by rwa [Registry.accept_byName, AList.lookup_insert_ne hn] at hq)
    · exact .inl hq
  | leave peer sid name =>
    rw [apply, Registry.leave_byName] at hq
    split_ifs at hq
    · by_cases hn : n = name
      · subst hn; simp [AList.lookup_erase] at hq
      · exact .inl (by rwa [AList.lookup_erase_ne hn] at hq)
    · exact .inl hq

theorem bySID_cases (h : op.Foreign me) :
    ∀ s q, (op.apply r).bySID.lookup s = some q → r.bySID.lookup s = some q ∨ q.id ≠ me := by
  intro s q hq
  cases op with
  | reserve name owner => exact .inl (by rwa [apply, Registry.reserveName_getD_bySID] at hq)
  | unbind name owner => simp only [apply] at hq; split_ifs at hq <;> exact .inl hq
  | nextSID => exact .inl hq
  | accept name sid peer =>
    simp only [apply] at hq
    split_ifs at hq
    · by_cases hs : s = sid
      · subst hs
        simp only [Registry.accept_bySID, AList.lookup_insert, Option.some.injEq] at hq
        exact .inr (hq ▸ h)
      · exact .inl (by rwa [Registry.accept_bySID, AList.lookup_insert_ne hs] at hq)
    · exact .inl hq
  | leave peer sid name =>
    rw [apply, Registry.leave_bySID] at hq
    split_ifs at hq
    · by_cases hs : s = sid
      · subst hs; simp [AList.lookup_erase] at hq
      · exact .inl (by rwa [AList.lookup_erase_ne hs] at hq)
    · exact .inl hq

theorem clear (h : op.Foreign me) (hc : r.Clear me) : (op.apply r).Clear me where
  reserved n := by rw [Ne, lookup_reserved_me h]; exact hc.reserved n
  byName n q hq := (byName_cases h n q hq).elim (hc.byName n q) id
  bySID s q hq := (bySID_cases h s q hq).elim (hc.bySID s q) id

theorem reserving {name : String} (h : op.Foreign me) (hc : r.Reserving me name) :
    (op.apply r).Reserving me name where
  held := (lookup_reserved_me h name).mpr hc.held
  reserved n hn := by rw [Ne, lookup_reserved_me h]; exact hc.reserved n hn
  byName n q hq := (byName_cases h n q hq).elim (hc.byName n q) id
  bySID s q hq := (bySID_cases h s q hq).elim (hc.bySID s q) id

theorem live {p : IrcPeer} (h : op.Foreign me) (hl : r.Live me p) : (op.apply r).Live me p where
  mine := hl.mine
  unreserved := by
    rcases reserved_cases (r := r) h with he | ⟨m, o, -, -, hm, he⟩ | ⟨m, o, -, -, he⟩ <;> rw [he]
    · exact hl.unreserved
    · have hn : p.name ≠ m := fun e => by simp [e ▸ hl.named] at hm
      rw [AList.lookup_insert_ne hn, hl.unreserved]
    · by_cases hn : p.name = m
      · rw [hn, AList.lookup_erase]
      · rw [AList.lookup_erase_ne hn, hl.unreserved]
  named := by
    cases op with
    | reserve name owner => rw [apply, Registry.reserveName_getD_byName, hl.named]
    | unbind name owner => simp only [apply]; split_ifs <;> exact hl.named
    | nextSID => exact hl.named
    | accept name sid peer =>
      simp only [apply]
      split_ifs with ho
      · have hn : p.name ≠ name := fun e => by rw [← e, hl.unreserved] at ho; cases ho
        rw [Registry.accept_byName, AList.lookup_insert_ne hn, hl.named]
      · exact hl.named
    | leave peer sid name =>
      rw [apply, Registry.leave_byName]
      split_ifs with hq
      · have hn : p.name ≠ name := by
          rintro rfl
          rw [hl.named, Option.some.injEq] at hq
          exact h (hq ▸ hl.mine)
        rw [AList.lookup_erase_ne hn, hl.named]
      · exact hl.named
  reserved n := by rw [Ne, lookup_reserved_me h]; exact hl.reserved n
  byName n q hq hid := (byName_cases h n q hq).elim (fun hq => hl.byName n q hq hid) (absurd hid)
  bySID s q hq hid := (bySID_cases h s q hq).elim (fun hq => hl.bySID s q hq hid) (absurd hid)

/-! ### All connections together -/

/-- Every critical section, of any connection, keeps every name either free of
reservations or free of live peers. -/
theorem exclusive (op : RegOp) (h : r.Exclusive) : (op.apply r).Exclusive := by
  intro n
  cases op with
  | reserve name owner =>
    cases hr : r.reserveName name owner with
    | none => simpa [apply, hr] using h n
    | some r' =>
      obtain ⟨-, h₂, rfl⟩ := Registry.reserveName_eq_some hr
      simp only [apply, hr, Option.getD_some]
      by_cases hn : n = name
      · subst hn; exact .inr h₂
      · rw [AList.lookup_insert_ne hn]; exact h n
  | unbind name owner =>
    simp only [apply]
    split_ifs
    · by_cases hn : n = name
      · subst hn; exact .inl (AList.lookup_erase _ _)
      · simpa [AList.lookup_erase_ne hn] using h n
    · exact h n
  | nextSID => exact h n
  | accept name sid peer =>
    simp only [apply]
    split_ifs
    · by_cases hn : n = name
      · subst hn; exact .inl (AList.lookup_erase _ _)
      · simpa [AList.lookup_erase_ne hn, AList.lookup_insert_ne hn] using h n
    · exact h n
  | leave peer sid name =>
    refine (h n).imp id fun h' => ?_
    rw [apply, Registry.leave_byName]
    split_ifs
    · by_cases hn : n = name
      · subst hn; exact AList.lookup_erase _ _
      · rwa [AList.lookup_erase_ne hn]
    · exact h'

/-- Every run of sections keeps every name either free of reservations or free
of live peers. -/
theorem foldl_exclusive : ∀ (ops : List RegOp) {r : Registry}, r.Exclusive →
    (ops.foldl (fun r op => op.apply r) r).Exclusive
  | [], _, h => h
  | op :: ops, _, h => foldl_exclusive ops (op.exclusive h)

/-- Whatever the interleaving of the connections' critical sections, from an
empty registry no name is ever both reserved and the name of a live peer. -/
theorem foldl_apply_exclusive (ops : List RegOp) :
    (ops.foldl (fun (r : Registry) (op : RegOp) => op.apply r) ⟨∅, ∅, ∅, 0⟩).Exclusive :=
  foldl_exclusive ops fun _ => .inl (AList.lookup_empty _)

end RegOp

end DcHub.Hub

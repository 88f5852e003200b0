import DcHub.Hub.Roster
import DcHub.Irc.Accept

/-! # The roster model and the code

`DcHub.Hub.Roster` models the hub's join and leave code as atomic steps on a
directory of connections. Here its connections are the hub's peers and its
directory is `Registry.peers`, and each step is tied to the code it stands for:
`PeersJoin` and `PeersLeave` send the roster's events; what `ircAccept` writes
after `JOIN #hub` is the snapshot's events for the directory it listed; the
promotion is the roster's promote and the leave of `Close` the roster's leave,
on the directory their critical section finds. `ircAccept_refines` assembles
the accept from these: a snapshot on the directory of one section, then a
promote on the directory of a later one, with the other connections' sections
in between. That window is the one in which the roster's races happen.
-/

namespace DcHub.Irc

open DcHub.Hub Roster Conn

/-- How `p`'s client is sent a roster event: the message that `PeersJoin` or
`PeersLeave` of that one peer writes. -/
def IrcPeer.render (p : IrcPeer) : Event Peer → Message
  | .join q => ⟨p.prefFor q q.name, "JOIN", [ircHubChan]⟩
  | .part q => ⟨p.prefFor q q.name, "PART", [ircHubChan, "disconnect"]⟩

/-! ### Messages -/

/-- `PeersJoin` of a list sends the joins of its peers; of one peer, it is the
announce of that peer's join. -/
theorem peersJoin_eq_render (p : IrcPeer) (l : List Peer) :
    p.peersJoin l = (l.map .join).map p.render := by
  simp [IrcPeer.peersJoin, IrcPeer.render]

theorem peersLeave_eq_render (p : IrcPeer) (l : List Peer) :
    p.peersLeave l = (l.map .part).map p.render := by
  simp [IrcPeer.peersLeave, IrcPeer.render]

/-- After the greeting and the `PONG`s, the accept's transcript is the
roster's snapshot events for the directory it lists, its own echo first. -/
theorem acceptLog_eq_snapshotEvents (info : HubInfo) (p : IrcPeer)
    (ms : List (Except String Message)) (l : List Peer) :
    acceptLog info p ms l =
      welcome info p ++ ms.filterMap pongOf ++ (snapshotEvents (.irc p) l).map p.render := by
  simp [acceptLog, snapshotEvents, peersJoin_eq_render, IrcPeer.render, IrcPeer.prefFor]

/-! ### The directory -/

section
variable {ε : Type} {me : Nat} {p : IrcPeer} {w : World} {s : Roster.State Peer}

/-- The promotion is the roster's promote on the directory its section finds,
when no live peer has the name: the registry's directory after is the roster's,
and the list it hands on as `notify` is the peer and the peers its `JOIN` is
owed to. -/
theorem promote_refines (hs : s.live = w.interfere.peers)
    (hn : w.interfere.byName.lookup p.name = none) :
    (promote p w : Go ε (List Peer) × World).1 =
        .ok (.irc p :: ((s.promote (.irc p)).stage (.irc p)).pending) ∧
      (promote p w : Go ε (List Peer) × World).2.reg.peers = (s.promote (.irc p)).live := by
  simp [Registry.peers_accept hn, State.promote, Stage.pending, hs]

/-- The leave of `Close`, run while the peer is live, is the roster's leave on
the directory its section finds. -/
theorem close_refines (hr : w.Rely me) (hl : w.reg.Live me p) (hc : w.closed = false)
    (hs : s.live = w.interfere.peers) :
    (p.close w : Go ε Unit × World).2.reg.peers = (s.leave (.irc p)).live := by
  rw [close_of_open hc, (hr.interfere_live hl).peers_leave]
  simp only [State.leave, hs]

end

/-! ### The accept -/

/-- A completed accept is the roster's snapshot on the directory it listed,
then the roster's promote on the directory its promotion found, whatever the
other connections did between the two sections. From where the NICK loop
leaves the connection, on a registry where no name is both reserved and live,
the client was written the greeting, a `PONG` for each `PING`, and then the
snapshot's events for the listing; and for every roster state whose directory
is the one the promotion found, the promote gives the registry's directory
after. -/
theorem ircAccept_refines (info : HubInfo) {me : Nat} {p : IrcPeer} {c : Nat × Nat × Nat × Bool}
    {w : World} (hw : Holding me p c w) (hx : w.reg.Exclusive) (hok : (ircAccept info p w).1 = .ok ()) :
    ∃ ms, (ircAccept info p w).2.client.readLog = w.client.readLog ++ ms ∧
      (ircAccept info p w).2.client.writeLog = w.client.writeLog ++ welcome info p ++
        ms.filterMap pongOf ++ (snapshotEvents (.irc p) w.interfere.peers).map p.render ∧
      ∀ s : Roster.State Peer, s.live = (admitNext w.interfere w.env.tail).peers →
        (s.promote (.irc p)).live = (ircAccept info p w).2.reg.peers := by
  -- at the promotion `me` still holds the name, so no live peer has it
  have ha : (admitNext w.interfere w.env.tail).Reserving me p.name :=
    hw.1.enter.interfere_reserving (hw.1.interfere_reserving hw.2.1)
  have hxa : (admitNext w.interfere w.env.tail).Exclusive :=
    RegOp.foldl_exclusive _ (RegOp.foldl_exclusive _ hx)
  have hn : (admitNext w.interfere w.env.tail).byName.lookup p.name = none :=
    (hxa p.name).resolve_left (by rw [ha.held]; exact Option.some_ne_none me)
  obtain ⟨ms, l, hr, hwl, hrun⟩ := ircAccept_writes info p w
  generalize ircAccept info p w = res at hr hwl hrun hok ⊢
  cases hrun with
  | early => cases hok
  | listed => cases hok
  | promoted hl _ hg =>
    refine ⟨ms, hr, by rw [hwl, hl, acceptLog_eq_snapshotEvents]; simp only [List.append_assoc],
      fun s hs => ?_⟩
    rw [hg, Registry.peers_accept hn, ← hs]
    rfl

/-- `bob` lists an empty directory, `alice` is promoted in the window, and
`bob`'s promotion finds her: `bob`'s client is written no `JOIN` for `alice`,
who is live after. -/
theorem ircAccept_refines_window :
    let p : IrcPeer := ⟨1, 1, "bob", "bob", "localhost"⟩
    let w : World := ⟨⟨[.ok ⟨⟨"bob", "", ""⟩, "JOIN", ["#hub"]⟩], [], [], []⟩,
      ⟨((∅ : AList fun _ : String => Nat).insert "bob" 1).insert "alice" 2, ∅, ∅, 1⟩,
      [[], [.accept "alice" 2 (.other 2 "alice")]], 1, 0, 0, false⟩
    let info : HubInfo := ⟨"hub", "", "", "", "", "localhost", "6667", ""⟩
    Holding 1 p (1, 0, 0, false) w ∧ w.reg.Exclusive ∧ (ircAccept info p w).1 = .ok () ∧
      ∃ ms, (ircAccept info p w).2.client.readLog = w.client.readLog ++ ms ∧
        (ircAccept info p w).2.client.writeLog = w.client.writeLog ++ welcome info p ++
          ms.filterMap pongOf ++ (snapshotEvents (.irc p) w.interfere.peers).map p.render ∧
        ∀ s : Roster.State Peer, s.live = (admitNext w.interfere w.env.tail).peers →
          (s.promote (.irc p)).live = (ircAccept info p w).2.reg.peers :=
  have hw : Holding 1 ⟨1, 1, "bob", "bob", "localhost"⟩ (1, 0, 0, false)
      ⟨⟨[.ok ⟨⟨"bob", "", ""⟩, "JOIN", ["#hub"]⟩], [], [], []⟩,
        ⟨((∅ : AList fun _ : String => Nat).insert "bob" 1).insert "alice" 2, ∅, ∅, 1⟩,
        [[], [.accept "alice" 2 (.other 2 "alice")]], 1, 0, 0, false⟩ :=
    ⟨by simp [World.Rely, RegOp.Foreign, Peer.id], ⟨by decide, fun n hn => by
      by_cases ha : n = "alice"
      · subst ha; decide
      · rw [AList.lookup_insert_ne ha, AList.lookup_insert_ne hn, AList.lookup_empty]; exact nofun,
      fun _ _ h => by simp [AList.lookup_empty] at h, fun _ _ h => by simp [AList.lookup_empty] at h⟩, rfl⟩
  have hx : Registry.Exclusive ⟨((∅ : AList fun _ : String => Nat).insert "bob" 1).insert "alice" 2, ∅, ∅, 1⟩ :=
    fun _ => .inr (AList.lookup_empty _)
  ⟨hw, hx, rfl, ircAccept_refines _ hw hx rfl⟩

end DcHub.Irc

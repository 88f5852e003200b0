import DcHub.Irc.Session

/-! # What a connection does to the registry

Every result about one IRC connection assumes that the critical sections other
connections run in between keep off its entries (`World.Rely`). This module
proves the other half of that bargain. `ServeIRC` changes the registry only by
the other connections' sections, let in batch by batch in the order they come,
and by critical sections of its own: reserving a name for itself, taking a
SID, promoting its own peer under the name it holds, giving that name back,
and making its own peer leave. Each section of its own keeps off every other
connection's entries, so when every connection of the hub runs `ServeIRC`,
what each one does is what the rely of every other one allows; and no
interleaving ever makes a name both reserved and the name of a live peer. All
of it is read off the trace of the conversation (`serveIRC_conversation`):
each section there that changes the registry is one of the connection's own.
-/

namespace DcHub.Hub.RegOp

/-- A critical section of `me`'s own: a reservation for `me`, the `unbind` of
a name `me` holds, a SID, or the promotion or the leave of a peer of `me`. -/
def OwnedBy (me : Nat) : RegOp → Prop
  | .reserve _ owner | .unbind _ owner => owner = me
  | .nextSID => True
  | .accept _ _ peer | .leave peer _ _ => peer.id = me

/-- A section of `me`'s own is, for every other connection, another
connection's section. -/
theorem OwnedBy.foreign {me o : Nat} {op : RegOp} (h : op.OwnedBy me) (ho : o ≠ me) :
    op.Foreign o := by
  cases op <;> simp only [OwnedBy, Foreign] at h ⊢ <;> first | trivial | exact h ▸ Ne.symm ho

end DcHub.Hub.RegOp

namespace DcHub.Irc

open DcHub.Hub Conn

/-! ### Sections -/

/-- How the registry goes from `r` to `r'` while `me` runs, `env` being the
batches of other connections' sections still to come before and `env'` after:
each critical section of `me` lets in the next batch, then runs the next of
`me`'s own sections `own`, or only reads. -/
inductive Sections (me : Nat) :
    Registry → List (List RegOp) → List RegOp → Registry → List (List RegOp) → Prop
  | done {r env} : Sections me r env [] r env
  | read {r env own r' env'} : Sections me (admitNext r env) env.tail own r' env' →
      Sections me r env own r' env'
  | own {r env op own r' env'} : op.OwnedBy me →
      Sections me (op.apply (admitNext r env)) env.tail own r' env' →
      Sections me r env (op :: own) r' env'

namespace Sections

variable {me : Nat} {r r₁ : Registry} {env env₁ : List (List RegOp)} {own : List RegOp}

theorem owned (h : Sections me r env own r₁ env₁) : ∀ op ∈ own, op.OwnedBy me := by
  induction h with
  | done => exact nofun
  | read _ ih => exact ih
  | own hop _ ih => exact List.forall_mem_cons.2 ⟨hop, ih⟩

/-- No section, of `me` or of the others, makes a name both reserved and the
name of a live peer. -/
theorem exclusive (h : Sections me r env own r₁ env₁) : r.Exclusive → r₁.Exclusive := by
  induction h with
  | done => exact id
  | read _ ih => exact fun hr => ih (RegOp.foldl_exclusive _ hr)
  | own _ _ ih => exact fun hr => ih (RegOp.exclusive _ (RegOp.foldl_exclusive _ hr))

end Sections

/-! ### The sections of the conversation -/

/-- Every section of `tr` that changes the registry is one of `me`'s own. -/
def Owns (me : Nat) (tr : List (Registry × Option RegOp)) : Prop :=
  ∀ s ∈ tr, ∀ op, s.2 = some op → op.OwnedBy me

theorem owns_append {me : Nat} {tr tr' : List (Registry × Option RegOp)} :
    Owns me (tr ++ tr') ↔ Owns me tr ∧ Owns me tr' :=
  List.forall_mem_append

/-- A trace whose sections of its own are all `me`'s is a run of `Sections`
of `me`, its own operations in order. -/
theorem Trace.sections {me : Nat} {r r' : Registry} {env env' : List (List RegOp)}
    {tr : List (Registry × Option RegOp)} (h : Trace r env tr r' env') (ho : Owns me tr) :
    Sections me r env (tr.filterMap Prod.snd) r' env' := by
  induction h with
  | done => exact .done
  | read _ ih => exact .read (ih fun s hs => ho s (.tail _ hs))
  | own _ ih => exact .own (ho _ (.head _) _ rfl) (ih fun s hs => ho s (.tail _ hs))

section
variable {info : HubInfo} {me : Nat} {tr : List (Registry × Option RegOp)}
  {ms : List (Except String Message)} {out : List Message}

theorem Attempt.owns {n : String} {b : Bool} (h : Attempt me n tr b) : Owns me tr := by
  cases h <;> simp [Owns, RegOp.OwnedBy]

theorem Negotiation.owns {reply : String → Message} {u : Option String}
    {r : Except HsError (String × String)} (h : Negotiation reply me u tr ms out r) : Owns me tr := by
  induction h with
  | nickFails | userFails | invalid => simp [Owns]
  | taken _ _ hatt _ ih => exact owns_append.2 ⟨hatt.owns, ih⟩
  | reserved _ _ hatt => exact hatt.owns

theorem Admission.owns {n v : String} {r : Go HsError IrcPeer} (h : Admission info me n v tr ms out r) :
    Owns me tr := by
  cases h <;> simp [Owns, RegOp.OwnedBy, admittedPeer, Peer.id]

theorem Greeting.owns {r : Go HsError IrcPeer} (h : Greeting info me tr ms out r) : Owns me tr := by
  cases h with
  | refused hn => exact hn.owns
  | admitted hn ha => exact owns_append.2 ⟨hn.owns, ha.owns⟩

/-- The peer a handshake admits is the connection's own. -/
theorem Greeting.peer_id {p : IrcPeer} (h : Greeting info me tr ms out (.ok p)) : p.id = me := by
  cases h with
  | admitted _ ha => cases ha; rfl

theorem Conversation.owns {onJoined : IrcPeer → Bool} {r : Go ServeError (List Dispatch)}
    (h : Conversation info me onJoined tr ms out r) : Owns me tr := by
  have hleave : ∀ {p : IrcPeer} {c : Registry}, p.id = me →
      Owns me [(c, some (.leave (.irc p) p.sid p.name))] := fun hp => by
    simp [Owns, RegOp.OwnedBy, Peer.id, hp]
  cases h with
  | failed hg => exact hg.owns
  | turnedAway hg _ => exact owns_append.2 ⟨hg.owns, hleave hg.peer_id⟩
  | chatted hg _ hc =>
    refine owns_append.2 ⟨owns_append.2 ⟨hg.owns, fun s hs op h => ?_⟩, hleave hg.peer_id⟩
    simp [hc.reads s hs] at h

end

/-! ### The guarantee -/

/-- From a fresh connection, whatever the client sends, whatever
`callOnJoined` answers, and whatever other connections do off this one's
entries, `ServeIRC` changes the registry only by the others' sections, in the
order they come, and by sections of its own; each section of its own is one
that the rely of every other connection allows; and if no name was both
reserved and the name of a live peer at the start, none is at the end. -/
theorem serveIRC_sections (info : HubInfo) (me : Nat) (onJoined : IrcPeer → Bool) (w : World)
    (hw : w.Fresh me) :
    ∃ own, Sections me w.reg w.env own (serveIRC info me onJoined w).2.reg
        (serveIRC info me onJoined w).2.env ∧
      (∀ o, o ≠ me → ∀ op ∈ own, op.Foreign o) ∧
      (w.reg.Exclusive → (serveIRC info me onJoined w).2.reg.Exclusive) := by
  obtain ⟨tr, _, _, -, -, htr, hc⟩ := serveIRC_conversation info me onJoined w hw
  have h := htr.sections hc.owns
  exact ⟨_, h, fun _ ho op hop => (h.owned op hop).foreign ho, h.exclusive⟩

theorem serveIRC_sections_bob :
    let w : World := ⟨⟨[.ok ⟨⟨"", "", ""⟩, "NICK", ["bob"]⟩, .ok ⟨⟨"", "", ""⟩, "USER", ["bob", "0", "*", "b"]⟩,
      .ok ⟨⟨"", "", ""⟩, "JOIN", ["#hub"]⟩, .ok ⟨⟨"", "", ""⟩, "QUIT", []⟩], [], [], []⟩,
      ⟨∅, ∅, ∅, 0⟩, [[.reserve "alice" 2]], 0, 0, 0, false⟩
    let info : HubInfo := ⟨"hub", "", "", "", "", "localhost", "6667", ""⟩
    w.Fresh 1 ∧ ∃ own, Sections 1 w.reg w.env own (serveIRC info 1 (fun _ => true) w).2.reg
        (serveIRC info 1 (fun _ => true) w).2.env ∧
      (∀ o, o ≠ 1 → ∀ op ∈ own, op.Foreign o) ∧
      (w.reg.Exclusive → (serveIRC info 1 (fun _ => true) w).2.reg.Exclusive) :=
  have hw : World.Fresh 1 ⟨⟨[.ok ⟨⟨"", "", ""⟩, "NICK", ["bob"]⟩, .ok ⟨⟨"", "", ""⟩, "USER", ["bob", "0", "*", "b"]⟩,
      .ok ⟨⟨"", "", ""⟩, "JOIN", ["#hub"]⟩, .ok ⟨⟨"", "", ""⟩, "QUIT", []⟩], [], [], []⟩,
      ⟨∅, ∅, ∅, 0⟩, [[.reserve "alice" 2]], 0, 0, 0, false⟩ :=
    ⟨fun b hb op hop => by simp at hb; subst hb; simp at hop; subst hop; exact (by decide : (2 : Nat) ≠ 1),
      (World.fresh_empty 1 ⟨[], [], [], []⟩).clear, rfl⟩
  ⟨hw, serveIRC_sections _ 1 _ _ hw⟩

end DcHub.Irc

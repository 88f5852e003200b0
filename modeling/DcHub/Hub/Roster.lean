import Mathlib.Data.Fintype.Basic

/-! # The presence roster under concurrent joins and leaves

Connections of a type `ι` run the hub's join and leave code in atomic steps
that other connections interleave with. `ircAccept` writes the new peer the echo
of its own `JOIN` and a `JOIN` for every peer of `h.Peers()`, promotes it under
the directory lock, and hands `broadcastUserJoin` the peers live then;
`hub.leave` removes a peer and sends its `PART` to the peers live at removal. An
IRC client's presence roster is what the `JOIN`s and `PART`s it reads leave on
it. `DcHub.Irc.Presence` ties each step to the code, with `ι` the hub's peers.

Every run keeps `Wf`; runs in which no promotion or removal falls inside another
accept's window between its snapshot and its promotion keep `Inv`, and so leave
every roster right once nothing is in progress. The window itself breaks the
roster: an accept promoted inside another's window is never shown to it.
-/

namespace DcHub.Hub.Roster

variable {ι : Type}

/-- Where a connection is in the join and leave code. -/
inductive Stage (ι : Type) where
  /-- not at the roster yet: in the NICK loop, or not connected -/
  | idle
  /-- has taken `h.Peers()` and written their `JOIN`s, not promoted yet -/
  | snapped
  /-- promoted; `broadcastUserJoin` still owes its `JOIN` to `pending` -/
  | joined (pending : List ι)
  /-- removed by `hub.leave`, which still owes its `PART` to `pending` -/
  | parted (pending : List ι)
  /-- the accept failed before the promotion and gave the name back -/
  | failed
  deriving DecidableEq

namespace Stage

def pending : Stage ι → List ι
  | joined ps | parted ps => ps
  | idle | snapped | failed => []

def promoted : Stage ι → Bool
  | joined _ | parted _ => true
  | idle | snapped | failed => false

def isJoined : Stage ι → Bool
  | joined _ => true
  | idle | snapped | parted _ | failed => false

/-- Keeps a roster the hub answers for: has taken its snapshot and not left. -/
def watching : Stage ι → Bool
  | snapped | joined _ => true
  | idle | parted _ | failed => false

theorem promoted_of_isJoined {st : Stage ι} (h : st.isJoined) : st.promoted := by
  cases st <;> simp_all [isJoined, promoted]

end Stage

/-- How a connection's stage can move in one step. -/
inductive Stage.Next : Stage ι → Stage ι → Prop
  | stay (st : Stage ι) : Stage.Next st st
  | snapshot : Stage.Next .idle .snapped
  | promote (ps : List ι) : Stage.Next .snapped (.joined ps)
  | announce (c : ι) (ps : List ι) : Stage.Next (.joined (c :: ps)) (.joined ps)
  | leave (ps : List ι) : Stage.Next (.joined []) (.parted ps)
  | part (c : ι) (ps : List ι) : Stage.Next (.parted (c :: ps)) (.parted ps)
  | abortIdle : Stage.Next .idle .failed
  | abortSnapped : Stage.Next .snapped .failed

namespace Stage.Next

variable {st st' : Stage ι}

theorem ne_idle (h : st.Next st') (hst : st ≠ .idle) : st' ≠ .idle := by
  cases h <;> simp_all

theorem promoted (h : st.Next st') (hp : st.promoted) : st'.promoted := by
  cases h <;> simp_all [Stage.promoted]

theorem joined_subset {ps : List ι} (h : st.Next (.joined ps)) (hp : st.promoted) :
    ∃ qs, st = .joined qs ∧ ps ⊆ qs := by
  cases h with
  | stay => exact ⟨ps, rfl, List.Subset.refl _⟩
  | promote => simp [Stage.promoted] at hp
  | announce c => exact ⟨_, rfl, List.subset_cons_self c ps⟩

theorem parted_subset {ps : List ι} (h : (Stage.parted ps).Next st') :
    ∃ qs, st' = .parted qs ∧ qs ⊆ ps := by
  cases h with
  | stay => exact ⟨ps, rfl, List.Subset.refl _⟩
  | part c qs => exact ⟨qs, rfl, List.subset_cons_self c qs⟩

end Stage.Next

variable [DecidableEq ι]

/-- A `JOIN #hub` or `PART #hub` a connection is sent about a peer. -/
inductive Event (ι : Type) where
  | join (b : ι)
  | part (b : ι)
  deriving DecidableEq

def Event.peer : Event ι → ι
  | .join b | .part b => b

/-- One message's effect on a client's roster. -/
def Event.apply (r : ι → Bool) : Event ι → ι → Bool
  | .join b => Function.update r b true
  | .part b => Function.update r b false

/-- The presence roster a client keeps from the messages it reads, in order. -/
def presence (l : List (Event ι)) : ι → Bool :=
  l.foldl Event.apply fun _ => false

@[simp] theorem presence_append_join (l : List (Event ι)) (a b : ι) :
    presence (l ++ [.join a]) b = if b = a then true else presence l b := by
  simp [presence, Event.apply, Function.update_apply]

@[simp] theorem presence_append_part (l : List (Event ι)) (a b : ι) :
    presence (l ++ [.part a]) b = if b = a then false else presence l b := by
  simp [presence, Event.apply, Function.update_apply]

/-- What `ircAccept` writes its peer `a` once it has read `JOIN #hub`: the echo
of `a`'s own `JOIN`, then `PeersJoin` of the listing `live`. -/
def snapshotEvents (a : ι) (live : List ι) : List (Event ι) :=
  .join a :: live.map .join

theorem foldl_map_join (xs : List ι) (r : ι → Bool) (b : ι) :
    (xs.map .join).foldl Event.apply r b = (decide (b ∈ xs) || r b) := by
  induction xs generalizing r with
  | nil => simp
  | cons x xs ih =>
    rw [List.map_cons, List.foldl_cons, ih]
    by_cases h : b = x <;> simp [Event.apply, Function.update_apply, h]

/-- Besides the echo, the snapshot puts on an empty roster exactly the listed
peers. -/
theorem presence_snapshotEvents {a b : ι} (hb : b ≠ a) (xs : List ι) :
    presence (snapshotEvents a xs) b = decide (b ∈ xs) := by
  simp [presence, snapshotEvents, foldl_map_join, Event.apply, Function.update_apply, hb]

/-- A roster shows no peer it was sent nothing about. -/
theorem presence_eq_false {l : List (Event ι)} {b : ι} (h : ∀ e ∈ l, e.peer ≠ b) :
    presence l b = false := by
  suffices ∀ r : ι → Bool, r b = false → l.foldl Event.apply r b = false from
    this _ rfl
  induction l with
  | nil => exact fun _ hr => hr
  | cons e l ih =>
    intro r hr
    rw [List.foldl_cons]
    refine ih (List.forall_mem_of_forall_mem_cons h) _ ?_
    have he := h e (List.mem_cons_self e l)
    cases e with
    | join c =>
      have he : b ≠ c := Ne.symm he
      simpa [Event.apply, Function.update_noteq he] using hr
    | part c =>
      have he : b ≠ c := Ne.symm he
      simpa [Event.apply, Function.update_noteq he] using hr

/-- Whether `a` should have a peer in this stage on its roster: the peer is
promoted and owes `a` no `JOIN`, or is removed and still owes `a` its `PART`. -/
def Stage.shown (a : ι) : Stage ι → Bool
  | joined ps => decide (a ∉ ps)
  | parted ps => decide (a ∈ ps)
  | idle | snapped | failed => false

/-- The hub as the roster sees it. -/
structure State (ι : Type) where
  stage : ι → Stage ι
  /-- the peers in `byName` and `bySID`, the last promoted first -/
  live : List ι
  /-- the `JOIN`s and `PART`s each connection has been sent, in order -/
  inbox : ι → List (Event ι)

def State.init : State ι := ⟨fun _ => .idle, [], fun _ => []⟩

/-- The atomic steps of the join and leave code, by connection. -/
inductive Act (ι : Type) where
  | snapshot (a : ι)
  | promote (a : ι)
  | announce (a : ι)
  | leave (a : ι)
  | part (a : ι)
  | abort (a : ι)

namespace State

variable (s : State ι) (a b : ι) (bs : List ι)

/-- The echo of `a`'s `JOIN`, then `peer.PeersJoin(h.Peers())`: `a` is sent a
`JOIN` for every live peer. -/
def snapshot : State ι :=
  { s with stage := Function.update s.stage a .snapped,
           inbox := Function.update s.inbox a (s.inbox a ++ snapshotEvents a s.live) }

/-- The promotion under `h.peers.Lock()`: `a` goes live, and
`broadcastUserJoin` owes its `JOIN` to the other peers of `notify`, those live
before it. -/
def promote : State ι :=
  { s with stage := Function.update s.stage a (.joined s.live), live := a :: s.live }

/-- Modelled from the spec: `broadcastUserJoin` sends `a`'s `JOIN` to `b`, the
next peer it owes one. -/
def announce : State ι :=
  { s with stage := Function.update s.stage a (.joined bs),
           inbox := Function.update s.inbox b (s.inbox b ++ [.join a]) }

/-- Modelled from the spec: `hub.leave` takes `a` out of the directory, and owes
its `PART` to the peers still live. -/
def leave : State ι :=
  { s with stage := Function.update s.stage a (.parted (s.live.erase a)),
           live := s.live.erase a }

/-- Modelled from the spec: `hub.leave` sends `a`'s `PART` to `b`, the next peer
it owes one. -/
def part : State ι :=
  { s with stage := Function.update s.stage a (.parted bs),
           inbox := Function.update s.inbox b (s.inbox b ++ [.part a]) }

/-- The accept of `a` fails before its promotion. -/
def abort : State ι := { s with stage := Function.update s.stage a .failed }

/-- One step, `none` when the connection is not at that point of the code. A
peer leaves only once `broadcastUserJoin` is done: `ServeIRC` defers `Close`
until `ircHandshake` returns. -/
def step : Act ι → Option (State ι)
  | .snapshot a => if s.stage a = .idle then some (s.snapshot a) else none
  | .promote a => if s.stage a = .snapped then some (s.promote a) else none
  | .announce a =>
    match s.stage a with
    | .joined (b :: bs) => some (s.announce a b bs)
    | _ => none
  | .leave a => if s.stage a = .joined [] then some (s.leave a) else none
  | .part a =>
    match s.stage a with
    | .parted (b :: bs) => some (s.part a b bs)
    | _ => none
  | .abort a => if s.stage a = .idle ∨ s.stage a = .snapped then some (s.abort a) else none

/-- The steps in order; `none` at the first that is not enabled. -/
def run : List (Act ι) → State ι → Option (State ι)
  | [], s => some s
  | act :: acts, s => (s.step act).bind (run acts)

/-- A step that changes the directory while no other accept is between its
snapshot and its promotion. -/
def Calm : Act ι → Prop
  | .promote a => ∀ x, x ≠ a → s.stage x ≠ .snapped
  | .leave _ => ∀ x, s.stage x ≠ .snapped
  | _ => True

instance [Fintype ι] : (act : Act ι) → Decidable (s.Calm act)
  | .promote a => inferInstanceAs (Decidable (∀ x, x ≠ a → s.stage x ≠ .snapped))
  | .leave _ => inferInstanceAs (Decidable (∀ x, s.stage x ≠ .snapped))
  | .snapshot _ | .announce _ | .part _ | .abort _ => instDecidableTrue

/-- The runs whose every step is calm; `none` at the first that is not. -/
def calmRun [Fintype ι] : List (Act ι) → State ι → Option (State ι)
  | [], s => some s
  | act :: acts, s => if s.Calm act then (s.step act).bind (calmRun acts) else none

/-- No accept is between its snapshot and its promotion, and no join or leave
owes a message. -/
def Quiescent : Prop := ∀ a, s.stage a ≠ .snapped ∧ (s.stage a).pending = []

instance [Fintype ι] : Decidable s.Quiescent :=
  inferInstanceAs (Decidable (∀ a, s.stage a ≠ .snapped ∧ (s.stage a).pending = []))

/-- Every live peer's roster holds exactly the other live peers. -/
def Consistent : Prop :=
  ∀ a ∈ s.live, ∀ b, b ≠ a → (presence (s.inbox a) b = true ↔ b ∈ s.live)

instance [Fintype ι] : Decidable s.Consistent :=
  inferInstanceAs (Decidable (∀ a ∈ s.live, ∀ b, b ≠ a → (presence (s.inbox a) b = true ↔ b ∈ s.live)))

end State

/-! ### What every run keeps -/

theorem comp_update_of_eq {β : Type} (P : Stage ι → β) (st : Stage ι) {f : ι → Stage ι}
    {a : ι} {old : Stage ι} (ha : f a = old) (h : P st = P old) (y : ι) :
    P (Function.update f a st y) = P (f y) := by
  by_cases hy : y = a
  · subst hy; rw [Function.update_same, h, ha]
  · rw [Function.update_noteq hy]

theorem comp_update_failed {β : Type} (P : Stage ι → β) {f : ι → Stage ι} {a : ι}
    (ha : f a = .idle ∨ f a = .snapped) (h₁ : P .failed = P .idle) (h₂ : P .failed = P .snapped)
    (y : ι) : P (Function.update f a .failed y) = P (f y) := by
  rcases ha with ha | ha
  exacts [comp_update_of_eq P _ ha h₁ y, comp_update_of_eq P _ ha h₂ y]

theorem idle_of_update {f : ι → Stage ι} {a x : ι} {st : Stage ι} (hst : st ≠ .idle)
    (h : Function.update f a st x = .idle) : x ≠ a ∧ f x = .idle := by
  by_cases hx : x = a
  · subst hx; rw [Function.update_same] at h; exact absurd h hst
  · rw [Function.update_noteq hx] at h; exact ⟨hx, h⟩

theorem promoted_update {f : ι → Stage ι} {a y : ι} {st : Stage ι}
    (h : (f a).promoted → st.promoted) (hy : (f y).promoted) :
    (Function.update f a st y).promoted := by
  by_cases hya : y = a
  · subst hya; rw [Function.update_same]; exact h hy
  · rwa [Function.update_noteq hya]

/-- What a step can do. -/
theorem step_eq_some {s s' : State ι} {act : Act ι} (h : s.step act = some s') :
    (∃ a, act = .snapshot a ∧ s.stage a = .idle ∧ s' = s.snapshot a) ∨
    (∃ a, act = .promote a ∧ s.stage a = .snapped ∧ s' = s.promote a) ∨
    (∃ a b bs, act = .announce a ∧ s.stage a = .joined (b :: bs) ∧ s' = s.announce a b bs) ∨
    (∃ a, act = .leave a ∧ s.stage a = .joined [] ∧ s' = s.leave a) ∨
    (∃ a b bs, act = .part a ∧ s.stage a = .parted (b :: bs) ∧ s' = s.part a b bs) ∨
    (∃ a, act = .abort a ∧ (s.stage a = .idle ∨ s.stage a = .snapped) ∧ s' = s.abort a) := by
  cases act with
  | snapshot a => simp only [State.step, Option.ite_none_right_eq_some, Option.some.injEq] at h; simp [h]
  | promote a => simp only [State.step, Option.ite_none_right_eq_some, Option.some.injEq] at h; simp [h]
  | announce a =>
    simp only [State.step] at h
    split at h
    · next b bs ha => cases h; exact .inr (.inr (.inl ⟨a, b, bs, rfl, ha, rfl⟩))
    · cases h
  | leave a => simp only [State.step, Option.ite_none_right_eq_some, Option.some.injEq] at h; simp [h]
  | part a =>
    simp only [State.step] at h
    split at h
    · next b bs ha => cases h; exact .inr (.inr (.inr (.inr (.inl ⟨a, b, bs, rfl, ha, rfl⟩))))
    · cases h
  | abort a => simp only [State.step, Option.ite_none_right_eq_some, Option.some.injEq] at h; simp [h]

theorem Stage.next_update {f : ι → Stage ι} {a : ι} {st : Stage ι} (h : (f a).Next st) (x : ι) :
    (f x).Next (Function.update f a st x) := by
  by_cases hx : x = a
  · subst hx; rwa [Function.update_same]
  · rw [Function.update_noteq hx]; exact .stay _

/-- What a step does to each connection's stage. -/
theorem step_stage {s s' : State ι} {act : Act ι} (h : s.step act = some s') (x : ι) :
    (s.stage x).Next (s'.stage x) := by
  rcases step_eq_some h with ⟨a, -, ha, rfl⟩ | ⟨a, -, ha, rfl⟩ | ⟨a, b, bs, -, ha, rfl⟩ |
    ⟨a, -, ha, rfl⟩ | ⟨a, b, bs, -, ha, rfl⟩ | ⟨a, -, ha | ha, rfl⟩
  · exact Stage.next_update (by rw [ha]; exact .snapshot) x
  · exact Stage.next_update (by rw [ha]; exact .promote _) x
  · exact Stage.next_update (by rw [ha]; exact .announce b bs) x
  · exact Stage.next_update (by rw [ha]; exact .leave _) x
  · exact Stage.next_update (by rw [ha]; exact .part b bs) x
  · exact Stage.next_update (by rw [ha]; exact .abortIdle) x
  · exact Stage.next_update (by rw [ha]; exact .abortSnapped) x

/-- Once `b` has taken its snapshot, only `a`'s own announce or part changes
whether `b` shows `a`. -/
theorem presence_step {s s' : State ι} {act : Act ι} (h : s.step act = some s') {a b : ι}
    (hb : s.stage b ≠ .idle) :
    presence (s'.inbox b) a = presence (s.inbox b) a ∨ (∃ ps, s.stage a = .joined (b :: ps)) ∨
      ∃ ps, s.stage a = .parted (b :: ps) ∧ presence (s'.inbox b) a = false := by
  rcases step_eq_some h with ⟨x, -, hx, rfl⟩ | ⟨x, -, -, rfl⟩ | ⟨x, y, ys, -, hx, rfl⟩ |
    ⟨x, -, -, rfl⟩ | ⟨x, y, ys, -, hx, rfl⟩ | ⟨x, -, -, rfl⟩
  case inl =>
    have hbx : b ≠ x := fun e => hb (e ▸ hx)
    exact .inl (by simp [State.snapshot, Function.update_noteq hbx])
  case inr.inr.inl =>
    by_cases hby : b = y
    · subst hby
      by_cases hax : a = x
      · subst hax; exact .inr (.inl ⟨ys, hx⟩)
      · exact .inl (by simp [State.announce, hax])
    · exact .inl (by simp [State.announce, Function.update_noteq hby])
  case inr.inr.inr.inr.inl =>
    by_cases hby : b = y
    · subst hby
      by_cases hax : a = x
      · subst hax; exact .inr (.inr ⟨ys, hx, by simp [State.part]⟩)
      · exact .inl (by simp [State.part, hax])
    · exact .inl (by simp [State.part, Function.update_noteq hby])
  all_goals exact .inl rfl

/-- What every step keeps, every run keeps. -/
theorem run_induction (P : State ι → Prop)
    (hP : ∀ {s s' : State ι} {act : Act ι}, P s → s.step act = some s' → P s') :
    ∀ {acts : List (Act ι)} {s s' : State ι}, P s → State.run acts s = some s' → P s'
  | [], _, _, hs, h => by cases h; exact hs
  | _ :: _, _, _, hs, h => by
    obtain ⟨t, ht, h⟩ := Option.bind_eq_some.mp h
    exact run_induction P hP (hP hs ht) h

/-- What every run keeps, calm or not: the directory holds the joined
connections once each, nobody idle has been sent anything, every message sent is
the echo of the connection's own `JOIN` or about a promoted peer, and every
message owed is about, and owed to, a promoted peer. -/
structure Wf (s : State ι) : Prop where
  live_nodup : s.live.Nodup
  mem_live : ∀ a, a ∈ s.live ↔ (s.stage a).isJoined
  idle_inbox : ∀ a, s.stage a = .idle → s.inbox a = []
  sent_promoted : ∀ a, ∀ e ∈ s.inbox a, e.peer = a ∨ (s.stage e.peer).promoted
  pending_nodup : ∀ a, (s.stage a).pending.Nodup
  pending_promoted : ∀ a b, b ∈ (s.stage a).pending → (s.stage b).promoted

namespace Wf

variable {s : State ι} {a b : ι} {bs : List ι}

omit [DecidableEq ι] in
theorem init : Wf (State.init : State ι) where
  live_nodup := List.nodup_nil
  mem_live _ := by simp [State.init, Stage.isJoined]
  idle_inbox _ _ := rfl
  sent_promoted _ _ h := nomatch h
  pending_nodup _ := List.nodup_nil
  pending_promoted _ _ h := nomatch h

omit [DecidableEq ι] in
theorem not_mem_pending (hw : Wf s) (ha : (s.stage a).promoted = false) (b : ι) :
    a ∉ (s.stage b).pending := fun h => by
  simpa [ha] using hw.pending_promoted b a h

/-- A connection that is not promoted should see exactly the live peers. -/
theorem shown_eq_mem_live (hw : Wf s) (ha : (s.stage a).promoted = false) (b : ι) :
    (s.stage b).shown a = decide (b ∈ s.live) := by
  have hp := hw.not_mem_pending ha b
  simp only [hw.mem_live b]
  cases hb : s.stage b <;> simp_all [Stage.shown, Stage.isJoined, Stage.pending]

omit [DecidableEq ι] in
theorem mem_live_of_watching (hw : Wf s) (hx : (s.stage a).watching)
    (hs : s.stage a ≠ .snapped) : a ∈ s.live := by
  rw [hw.mem_live]
  cases ha : s.stage a <;> simp_all [Stage.watching, Stage.isJoined]

theorem snapshot (hw : Wf s) (ha : s.stage a = .idle) : Wf (s.snapshot a) where
  live_nodup := hw.live_nodup
  mem_live x := by
    simp only [State.snapshot, comp_update_of_eq Stage.isJoined .snapped ha rfl]
    exact hw.mem_live x
  idle_inbox x hx := by
    by_cases h : x = a
    · subst h; simp [State.snapshot] at hx
    · simp only [State.snapshot, Function.update_noteq h] at hx ⊢
      exact hw.idle_inbox x hx
  sent_promoted x e he := by
    simp only [State.snapshot, comp_update_of_eq Stage.promoted .snapped ha rfl] at he ⊢
    by_cases h : x = a
    · subst h
      rw [Function.update_same, hw.idle_inbox x ha, List.nil_append, snapshotEvents] at he
      rcases List.mem_cons.1 he with rfl | he
      · exact .inl rfl
      obtain ⟨b, hb, rfl⟩ := List.mem_map.1 he
      exact .inr (Stage.promoted_of_isJoined ((hw.mem_live b).1 hb))
    · rw [Function.update_noteq h] at he
      exact hw.sent_promoted x e he
  pending_nodup x := by
    simp only [State.snapshot, comp_update_of_eq Stage.pending .snapped ha rfl]
    exact hw.pending_nodup x
  pending_promoted x y hy := by
    simp only [State.snapshot, comp_update_of_eq Stage.pending .snapped ha rfl,
      comp_update_of_eq Stage.promoted .snapped ha rfl] at hy ⊢
    exact hw.pending_promoted x y hy

theorem promote (hw : Wf s) (ha : s.stage a = .snapped) : Wf (s.promote a) where
  live_nodup := List.nodup_cons.2 ⟨by simp [hw.mem_live, ha, Stage.isJoined], hw.live_nodup⟩
  mem_live x := by
    by_cases h : x = a
    · subst h; simp [State.promote, Stage.isJoined]
    · simp [State.promote, h, hw.mem_live]
  idle_inbox x hx := hw.idle_inbox x (idle_of_update (by simp) hx).2
  sent_promoted x e he := by
    simp only [State.promote]
    exact (hw.sent_promoted x e he).imp_right (promoted_update fun _ => rfl)
  pending_nodup x := by
    by_cases h : x = a
    · subst h; simpa [State.promote, Stage.pending] using hw.live_nodup
    · simpa [State.promote, h] using hw.pending_nodup x
  pending_promoted x y hy := by
    simp only [State.promote] at hy ⊢
    refine promoted_update (fun _ => rfl) ?_
    by_cases h : x = a
    · subst h
      rw [Function.update_same] at hy
      exact Stage.promoted_of_isJoined ((hw.mem_live y).1 hy)
    · rw [Function.update_noteq h] at hy
      exact hw.pending_promoted x y hy

theorem announce (hw : Wf s) (ha : s.stage a = .joined (b :: bs)) :
    Wf (s.announce a b bs) where
  live_nodup := hw.live_nodup
  mem_live x := by
    simp only [State.announce, comp_update_of_eq Stage.isJoined (.joined bs) ha rfl]
    exact hw.mem_live x
  idle_inbox x hx := by
    simp only [State.announce] at hx ⊢
    obtain ⟨-, hx⟩ := idle_of_update (by simp) hx
    have hxb : x ≠ b := by
      rintro rfl
      simpa [hx, Stage.promoted] using hw.pending_promoted a x (by simp [ha, Stage.pending])
    rw [Function.update_noteq hxb]
    exact hw.idle_inbox x hx
  sent_promoted x e he := by
    simp only [State.announce, comp_update_of_eq Stage.promoted (.joined bs) ha rfl] at he ⊢
    by_cases h : x = b
    · subst h
      rw [Function.update_same, List.mem_append, List.mem_singleton] at he
      rcases he with he | rfl
      · exact hw.sent_promoted x e he
      · simp [Event.peer, ha, Stage.promoted]
    · rw [Function.update_noteq h] at he
      exact hw.sent_promoted x e he
  pending_nodup x := by
    by_cases h : x = a
    · subst h
      have hnd := hw.pending_nodup x
      rw [ha] at hnd
      simpa [State.announce, Stage.pending] using hnd.of_cons
    · simpa [State.announce, h] using hw.pending_nodup x
  pending_promoted x y hy := by
    simp only [State.announce, comp_update_of_eq Stage.promoted (.joined bs) ha rfl] at hy ⊢
    apply hw.pending_promoted x y
    by_cases h : x = a
    · subst h
      rw [Function.update_same] at hy
      rw [ha]
      exact List.mem_cons_of_mem _ hy
    · rwa [Function.update_noteq h] at hy

theorem leave (hw : Wf s) (ha : s.stage a = .joined []) : Wf (s.leave a) where
  live_nodup := hw.live_nodup.erase a
  mem_live x := by
    simp only [State.leave, hw.live_nodup.mem_erase_iff, hw.mem_live]
    by_cases h : x = a
    · subst h; simp [Stage.isJoined]
    · simp [h]
  idle_inbox x hx := hw.idle_inbox x (idle_of_update (by simp) hx).2
  sent_promoted x e he := by
    simp only [State.leave, comp_update_of_eq Stage.promoted (.parted (s.live.erase a)) ha rfl]
    exact hw.sent_promoted x e he
  pending_nodup x := by
    by_cases h : x = a
    · subst h; simpa [State.leave, Stage.pending] using hw.live_nodup.erase x
    · simpa [State.leave, h] using hw.pending_nodup x
  pending_promoted x y hy := by
    simp only [State.leave, comp_update_of_eq Stage.promoted (.parted (s.live.erase a)) ha rfl]
      at hy ⊢
    by_cases h : x = a
    · subst h
      rw [Function.update_same] at hy
      exact Stage.promoted_of_isJoined ((hw.mem_live y).1 (List.mem_of_mem_erase hy))
    · rw [Function.update_noteq h] at hy
      exact hw.pending_promoted x y hy

theorem part (hw : Wf s) (ha : s.stage a = .parted (b :: bs)) : Wf (s.part a b bs) where
  live_nodup := hw.live_nodup
  mem_live x := by
    simp only [State.part, comp_update_of_eq Stage.isJoined (.parted bs) ha rfl]
    exact hw.mem_live x
  idle_inbox x hx := by
    simp only [State.part] at hx ⊢
    obtain ⟨-, hx⟩ := idle_of_update (by simp) hx
    have hxb : x ≠ b := by
      rintro rfl
      simpa [hx, Stage.promoted] using hw.pending_promoted a x (by simp [ha, Stage.pending])
    rw [Function.update_noteq hxb]
    exact hw.idle_inbox x hx
  sent_promoted x e he := by
    simp only [State.part, comp_update_of_eq Stage.promoted (.parted bs) ha rfl] at he ⊢
    by_cases h : x = b
    · subst h
      rw [Function.update_same, List.mem_append, List.mem_singleton] at he
      rcases he with he | rfl
      · exact hw.sent_promoted x e he
      · simp [Event.peer, ha, Stage.promoted]
    · rw [Function.update_noteq h] at he
      exact hw.sent_promoted x e he
  pending_nodup x := by
    by_cases h : x = a
    · subst h
      have hnd := hw.pending_nodup x
      rw [ha] at hnd
      simpa [State.part, Stage.pending] using hnd.of_cons
    · simpa [State.part, h] using hw.pending_nodup x
  pending_promoted x y hy := by
    simp only [State.part, comp_update_of_eq Stage.promoted (.parted bs) ha rfl] at hy ⊢
    apply hw.pending_promoted x y
    by_cases h : x = a
    · subst h
      rw [Function.update_same] at hy
      rw [ha]
      exact List.mem_cons_of_mem _ hy
    · rwa [Function.update_noteq h] at hy

theorem abort (hw : Wf s) (ha : s.stage a = .idle ∨ s.stage a = .snapped) :
    Wf (s.abort a) where
  live_nodup := hw.live_nodup
  mem_live x := by
    simpa only [State.abort, comp_update_failed Stage.isJoined ha rfl rfl] using hw.mem_live x
  idle_inbox x hx := hw.idle_inbox x (idle_of_update (by simp) hx).2
  sent_promoted x e he := by
    simpa only [State.abort, comp_update_failed Stage.promoted ha rfl rfl] using
      hw.sent_promoted x e he
  pending_nodup x := by
    simpa only [State.abort, comp_update_failed Stage.pending ha rfl rfl] using hw.pending_nodup x
  pending_promoted x y hy := by
    simp only [State.abort, comp_update_failed Stage.pending ha rfl rfl,
      comp_update_failed Stage.promoted ha rfl rfl] at hy ⊢
    exact hw.pending_promoted x y hy

theorem step {act : Act ι} {s' : State ι} (hw : Wf s) (h : s.step act = some s') : Wf s' := by
  rcases step_eq_some h with ⟨a, -, ha, rfl⟩ | ⟨a, -, ha, rfl⟩ | ⟨a, b, bs, -, ha, rfl⟩ |
    ⟨a, -, ha, rfl⟩ | ⟨a, b, bs, -, ha, rfl⟩ | ⟨a, -, ha, rfl⟩
  exacts [hw.snapshot ha, hw.promote ha, hw.announce ha, hw.leave ha, hw.part ha, hw.abort ha]

theorem run {acts : List (Act ι)} {s' : State ι} (hw : Wf s) (h : State.run acts s = some s') :
    Wf s' :=
  run_induction Wf (fun hw h => hw.step h) hw h

end Wf

/-! ### The invariant of calm runs -/

/-- What every calm run keeps besides: every connection that has taken its
snapshot and not left has on its roster exactly the peers `shown` to it. -/
structure Inv (s : State ι) extends Wf s : Prop where
  roster : ∀ a b, (s.stage a).watching → b ≠ a → presence (s.inbox a) b = (s.stage b).shown a

namespace Inv

variable {s : State ι} {a b : ι} {bs : List ι}

theorem init : Inv (State.init : State ι) where
  toWf := Wf.init
  roster _ _ h := nomatch h

theorem snapshot (hi : Inv s) (ha : s.stage a = .idle) : Inv (s.snapshot a) where
  toWf := hi.toWf.snapshot ha
  roster x y hx hyx := by
    simp only [State.snapshot, comp_update_of_eq (Stage.shown x) .snapped ha rfl] at hx ⊢
    by_cases h : x = a
    · subst h
      rw [Function.update_same, hi.idle_inbox x ha, List.nil_append, presence_snapshotEvents hyx,
        hi.shown_eq_mem_live (by rw [ha]; rfl)]
    · rw [Function.update_noteq h] at hx ⊢
      exact hi.roster x y hx hyx

theorem promote (hi : Inv s) (ha : s.stage a = .snapped)
    (hc : ∀ x, x ≠ a → s.stage x ≠ .snapped) : Inv (s.promote a) where
  toWf := hi.toWf.promote ha
  roster x y hx hyx := by
    simp only [State.promote] at hx ⊢
    by_cases h : x = a
    · subst h
      rw [Function.update_noteq hyx]
      exact hi.roster x y (by rw [ha]; rfl) hyx
    · rw [Function.update_noteq h] at hx
      by_cases hy : y = a
      · subst hy
        rw [Function.update_same, hi.roster x y hx hyx, ha]
        simp [Stage.shown, hi.mem_live_of_watching hx (hc x h)]
      · rw [Function.update_noteq hy]
        exact hi.roster x y hx hyx

theorem announce (hi : Inv s) (ha : s.stage a = .joined (b :: bs)) :
    Inv (s.announce a b bs) where
  toWf := hi.toWf.announce ha
  roster x y hx hyx := by
    simp only [State.announce, comp_update_of_eq Stage.watching (.joined bs) ha rfl] at hx ⊢
    by_cases hxb : x = b
    · subst hxb
      have hnd := hi.pending_nodup a
      rw [ha] at hnd
      rw [Function.update_same, presence_append_join]
      by_cases hy : y = a
      · subst hy; simp [Stage.shown, (List.nodup_cons.1 hnd).1]
      · rw [if_neg hy, Function.update_noteq hy]
        exact hi.roster x y hx hyx
    · rw [Function.update_noteq hxb, hi.roster x y hx hyx]
      exact (comp_update_of_eq (Stage.shown x) (.joined bs) ha (by simp [Stage.shown, hxb]) y).symm

theorem leave (hi : Inv s) (ha : s.stage a = .joined []) (hc : ∀ x, s.stage x ≠ .snapped) :
    Inv (s.leave a) where
  toWf := hi.toWf.leave ha
  roster x y hx hyx := by
    simp only [State.leave] at hx ⊢
    by_cases h : x = a
    · subst h; simp [Stage.watching] at hx
    · rw [Function.update_noteq h] at hx
      rw [hi.roster x y hx hyx]
      by_cases hy : y = a
      · subst hy
        rw [ha, Function.update_same]
        simp [Stage.shown, hi.live_nodup.mem_erase_iff, Ne.symm hyx,
          hi.mem_live_of_watching hx (hc x)]
      · rw [Function.update_noteq hy]

theorem part (hi : Inv s) (ha : s.stage a = .parted (b :: bs)) : Inv (s.part a b bs) where
  toWf := hi.toWf.part ha
  roster x y hx hyx := by
    simp only [State.part, comp_update_of_eq Stage.watching (.parted bs) ha rfl] at hx ⊢
    by_cases hxb : x = b
    · subst hxb
      have hnd := hi.pending_nodup a
      rw [ha] at hnd
      rw [Function.update_same, presence_append_part]
      by_cases hy : y = a
      · subst hy; simp [Stage.shown, (List.nodup_cons.1 hnd).1]
      · rw [if_neg hy, Function.update_noteq hy]
        exact hi.roster x y hx hyx
    · rw [Function.update_noteq hxb, hi.roster x y hx hyx]
      exact (comp_update_of_eq (Stage.shown x) (.parted bs) ha (by simp [Stage.shown, hxb]) y).symm

theorem abort (hi : Inv s) (ha : s.stage a = .idle ∨ s.stage a = .snapped) :
    Inv (s.abort a) where
  toWf := hi.toWf.abort ha
  roster x y hx hyx := by
    simp only [State.abort, comp_update_failed (Stage.shown x) ha rfl rfl] at hx ⊢
    by_cases h : x = a
    · subst h; simp [Stage.watching] at hx
    · rw [Function.update_noteq h] at hx
      exact hi.roster x y hx hyx

theorem step {act : Act ι} {s' : State ι} (hi : Inv s) (hc : s.Calm act)
    (h : s.step act = some s') : Inv s' := by
  rcases step_eq_some h with ⟨a, rfl, ha, rfl⟩ | ⟨a, rfl, ha, rfl⟩ | ⟨a, b, bs, -, ha, rfl⟩ |
    ⟨a, rfl, ha, rfl⟩ | ⟨a, b, bs, -, ha, rfl⟩ | ⟨a, -, ha, rfl⟩
  exacts [hi.snapshot ha, hi.promote ha hc, hi.announce ha, hi.leave ha hc, hi.part ha,
    hi.abort ha]

theorem calmRun [Fintype ι] {acts : List (Act ι)} {s' : State ι} (hi : Inv s)
    (h : State.calmRun acts s = some s') : Inv s' := by
  induction acts generalizing s with
  | nil => cases h; exact hi
  | cons act acts ih =>
    simp only [State.calmRun] at h
    split_ifs at h with hc
    obtain ⟨t, ht, h⟩ := Option.bind_eq_some.mp h
    exact ih (hi.step hc ht) h

/-- With no accept in its window and no message owed, every roster is right. -/
theorem consistent (hi : Inv s) (hq : s.Quiescent) : s.Consistent := by
  intro a ha b hba
  have hw : (s.stage a).watching := by
    have := (hi.mem_live a).1 ha
    cases h : s.stage a <;> simp_all [Stage.isJoined, Stage.watching]
  rw [hi.roster a b hw hba, hi.mem_live b]
  obtain ⟨-, hp⟩ := hq b
  cases hb : s.stage b <;> simp_all [Stage.shown, Stage.isJoined, Stage.pending]

end Inv

/-! ### Rosters once nothing is in progress -/

open State

/-- Once nothing is in progress after a calm run from the empty hub, every live
peer's roster is the set of the other live peers. -/
theorem calmRun_consistent [Fintype ι] (acts : List (Act ι)) (s : State ι)
    (h : calmRun acts init = some s) (hq : s.Quiescent) : s.Consistent :=
  (Inv.init.calmRun h).consistent hq

theorem calmRun_consistent_sequentialAccepts :
    ∃ s, calmRun [.snapshot 0, .promote 0, .snapshot 1, .promote 1, .announce 1] (init : State (Fin 2)) =
      some s ∧ s.Quiescent ∧ s.Consistent :=
  ⟨_, rfl, by decide,
    calmRun_consistent ([.snapshot 0, .promote 0, .snapshot 1, .promote 1, .announce 1] : List (Act (Fin 2))) _
      rfl (by decide)⟩

/-! ### The window between snapshot and promotion -/

/-- `b`, past its snapshot, does not show `a`, and never will: `a` is promoted
and its join owes `b` no `JOIN`. -/
structure Misses (s : State ι) (a b : ι) : Prop where
  absent : presence (s.inbox b) a = false
  watched : s.stage b ≠ .idle
  promoted : (s.stage a).promoted
  owes : ∀ ps, s.stage a = .joined ps → b ∉ ps

/-- `b`, past its snapshot, shows `a`, which has left and owes `b` no `PART`. -/
structure Keeps (s : State ι) (a b : ι) : Prop where
  shown : presence (s.inbox b) a = true
  watched : s.stage b ≠ .idle
  left : ∃ ps, s.stage a = .parted ps ∧ b ∉ ps

section
variable {s s' : State ι} {act : Act ι} {a b : ι}

theorem Misses.step (hm : Misses s a b) (h : s.step act = some s') : Misses s' a b where
  absent := by
    rcases presence_step h hm.watched with he | ⟨ps, hps⟩ | ⟨ps, -, he⟩
    · rw [he]; exact hm.absent
    · exact absurd (List.mem_cons_self b ps) (hm.owes _ hps)
    · exact he
  watched := (step_stage h b).ne_idle hm.watched
  promoted := (step_stage h a).promoted hm.promoted
  owes ps hps := by
    have hn := step_stage h a
    rw [hps] at hn
    obtain ⟨qs, hqs, hsub⟩ := hn.joined_subset hm.promoted
    exact fun hb => hm.owes qs hqs (hsub hb)

theorem Keeps.step (hk : Keeps s a b) (h : s.step act = some s') : Keeps s' a b where
  shown := by
    obtain ⟨ps, hps, hb⟩ := hk.left
    rcases presence_step h hk.watched with he | ⟨qs, hqs⟩ | ⟨qs, hqs, -⟩
    · rw [he]; exact hk.shown
    · rw [hps] at hqs; cases hqs
    · rw [hps, Stage.parted.injEq] at hqs
      exact absurd (hqs ▸ List.mem_cons_self b qs) hb
  watched := (step_stage h b).ne_idle hk.watched
  left := by
    obtain ⟨ps, hps, hb⟩ := hk.left
    have hn := step_stage h a
    rw [hps] at hn
    obtain ⟨qs, hqs, hsub⟩ := hn.parted_subset
    exact ⟨qs, hqs, fun h => hb (hsub h)⟩

/-- Right after `a` and then `b` are promoted from their snapshots, `b` misses
`a`. -/
theorem Wf.misses (hw : Wf s) (hab : a ≠ b) (ha : s.stage a = .snapped)
    (hb : s.stage b = .snapped) : Misses ((s.promote a).promote b) a b where
  absent := presence_eq_false fun e he hea => by
    rcases hw.sent_promoted b e he with h | h
    · exact hab (hea.symm.trans h)
    · rw [hea, ha] at h; cases h
  watched := by simp [State.promote]
  promoted := by simp [State.promote, Function.update_noteq hab, Stage.promoted]
  owes ps hps := by
    have : ps = s.live := by simpa [State.promote, Function.update_noteq hab] using hps.symm
    subst this
    simp [hw.mem_live, hb, Stage.isJoined]

end

/-- The snapshot race. Two accepts `a` and `b` have both taken their snapshot,
and neither is promoted; `a` is promoted, then `b`. Whatever runs after, `b`'s
client never shows `a`: `b` listed the directory before `a` was live, and `a`'s
`broadcastUserJoin` owes its `JOIN` only to the peers live before `a`, which `b`
was not. So every later state in which both are live has a wrong roster, also
once nothing is in progress. -/
theorem run_promote_promote_misses (pre acts : List (Act ι)) (a b : ι) {s s' : State ι}
    (hs : run pre init = some s) (hab : a ≠ b) (ha : s.stage a = .snapped)
    (hb : s.stage b = .snapped) (h : run (.promote a :: .promote b :: acts) s = some s') :
    presence (s'.inbox b) a = false ∧ (a ∈ s'.live → b ∈ s'.live → ¬ s'.Consistent) := by
  have hb' : (s.promote a).stage b = .snapped := by
    simp [State.promote, Function.update_noteq hab.symm, hb]
  rw [run, State.step, if_pos ha, Option.some_bind, run, State.step, if_pos hb',
    Option.some_bind] at h
  have hm := run_induction (fun t => Misses t a b) (fun hm h => hm.step h)
    ((Wf.init.run hs).misses hab ha hb) h
  refine ⟨hm.absent, fun ha' hb' hc => ?_⟩
  have := (hc b hb' a hab).2 ha'
  rw [hm.absent] at this
  cases this

theorem run_promote_promote_misses_racingAccepts :
    let s := ((init : State (Fin 2)).snapshot 0).snapshot 1
    let s' := ((s.promote 0).promote 1).announce 1 0 []
    run [.snapshot 0, .snapshot 1] init = some s ∧ (0 : Fin 2) ≠ 1 ∧ s.stage 0 = .snapped ∧
      s.stage 1 = .snapped ∧ run [.promote 0, .promote 1, .announce 1] s = some s' ∧ s'.Quiescent ∧
      presence (s'.inbox 1) 0 = false ∧ ((0 : Fin 2) ∈ s'.live → (1 : Fin 2) ∈ s'.live → ¬ s'.Consistent) :=
  ⟨rfl, by decide, rfl, rfl, rfl, by decide,
    run_promote_promote_misses [.snapshot 0, .snapshot 1] [.announce 1] 0 1 rfl (by decide) rfl rfl rfl⟩

/-- The leave race. An accept `b` has taken its snapshot while `a` was live, and
is not promoted; `a` leaves, then `b` is promoted. Whatever runs after, `b`'s
client shows `a`, which is never live again: `a`'s `PART` goes to the peers live
at the removal, which `b` was not. -/
theorem run_leave_promote_keeps (pre acts : List (Act ι)) (a b : ι) {s s' : State ι}
    (hs : run pre init = some s) (ha : s.stage a = .joined []) (hb : s.stage b = .snapped)
    (hshown : presence (s.inbox b) a = true) (h : run (.leave a :: .promote b :: acts) s = some s') :
    presence (s'.inbox b) a = true ∧ a ∉ s'.live ∧ (b ∈ s'.live → ¬ s'.Consistent) := by
  have hw := Wf.init.run hs
  have hw' := hw.run h
  have hab : a ≠ b := fun e => by rw [e, hb] at ha; cases ha
  have hb' : (s.leave a).stage b = .snapped := by
    simp [State.leave, Function.update_noteq hab.symm, hb]
  rw [run, State.step, if_pos ha, Option.some_bind, run, State.step, if_pos hb',
    Option.some_bind] at h
  have hk : Keeps ((s.leave a).promote b) a b :=
    ⟨hshown, by simp [State.promote], s.live.erase a,
      by simp [State.promote, State.leave, Function.update_noteq hab],
      fun hm => by simpa [hw.mem_live, hb, Stage.isJoined] using List.mem_of_mem_erase hm⟩
  have hk' := run_induction (fun t => Keeps t a b) (fun hk h => hk.step h) hk h
  have hgone : a ∉ s'.live := fun hm => by
    obtain ⟨ps, hps, -⟩ := hk'.left
    simpa [hps, Stage.isJoined] using (hw'.mem_live a).1 hm
  exact ⟨hk'.shown, hgone, fun hb' hc => hgone ((hc b hb' a hab).1 hk'.shown)⟩

example :
    let s' := ((((((init : State (Fin 2)).snapshot 0).promote 0).snapshot 1).leave 0).promote 1)
    presence (s'.inbox 1) 0 = true ∧ (0 : Fin 2) ∉ s'.live ∧ ((1 : Fin 2) ∈ s'.live → ¬ s'.Consistent) :=
  run_leave_promote_keeps [.snapshot 0, .promote 0, .snapshot 1] [] 0 1 rfl rfl rfl rfl rfl

end DcHub.Hub.Roster

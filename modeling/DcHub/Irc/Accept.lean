import DcHub.Irc.Serve

/-! # What the accept sends its client

Once the NICK loop has reserved a name, `ircAccept` greets the client with the
numerics `001` to `005`, answers each `PING` with a `PONG` until the client
joins `#hub`, echoes that `JOIN`, and sends a `JOIN` for every peer of the
directory as it finds it before the promotion. Whatever the client sends and
whatever other connections do, it writes nothing else and in no other order: a
failed accept has written a prefix of that transcript. When the names, texts,
host and version the messages carry are clean, the client parses from the bytes
exactly the messages written.
-/

namespace DcHub.Irc

open DcHub.Hub Conn

/-- What `ircAccept` writes when the client's reads while the hub waits for
`JOIN` are `ms` and the directory lists `roster`: the greeting, a `PONG` for
each `PING`, the `JOIN` echo from the peer's own prefix, and one `JOIN` per
listed peer. -/
def acceptLog (info : HubInfo) (p : IrcPeer) (ms : List (Except String Message))
    (roster : List Peer) : List Message :=
  welcome info p ++ ms.filterMap pongOf ++ ⟨p.ownPref, "JOIN", [ircHubChan]⟩ :: p.peersJoin roster

/-- The reads of a wait for `JOIN` that ended well: messages other than `JOIN`,
then `JOIN #hub`. -/
def JoinedHub (ms : List (Except String Message)) : Prop :=
  (∀ x ∈ ms.dropLast, ∃ m, x = .ok m ∧ m.command ≠ "JOIN") ∧
    ∃ m, ms.getLast? = some (.ok m) ∧ m.command = "JOIN" ∧ m.params = [ircHubChan]

/-! ### The steps -/

/-- `writeAll` returns, and it writes the messages in order up to the first
write that fails, whose error it returns. -/
theorem writeAll_log {ε : Type} : ∀ (ms : List Message) (w : World),
    ∃ e l, (writeAll ms w : Go ε _ × World).1 = .ok e ∧
      (writeAll ms w : Go ε _ × World).2.client.readLog = w.client.readLog ∧
      (writeAll ms w : Go ε _ × World).2.client.writeLog = w.client.writeLog ++ l ∧ l <+: ms ∧
      (e = none → l = ms)
  | [], w => ⟨none, [], rfl, rfl, (List.append_nil _).symm, List.nil_prefix, fun _ => rfl⟩
  | m :: ms, w => by
    rw [writeAll, bind_of_ok (writeMessage_apply w m)]
    rcases w.client.writes.headD none with _ | err
    · obtain ⟨e, l, h₁, h₂, h₃, h₄, h₅⟩ := @writeAll_log ε ms (w.afterWrite m)
      exact ⟨e, m :: l, h₁, by simpa using h₂, by simp [h₃], (List.prefix_cons_inj m).2 h₄,
        fun he => by rw [h₅ he]⟩
    · exact ⟨some err, [m], rfl, by simp, by simp, ⟨ms, rfl⟩, nofun⟩

/-- The wait for `JOIN` reads messages other than `JOIN` until one that ends
it, answering each `PING` on the way; if it returns, the last read was
`JOIN #hub`. -/
theorem waitJoin_log : ∀ fuel (w : World), ∃ ms,
    (waitJoin fuel w).2.client.readLog = w.client.readLog ++ ms ∧
    (waitJoin fuel w).2.client.writeLog = w.client.writeLog ++ ms.filterMap pongOf ∧
    (∀ x ∈ ms.dropLast, ∃ m, x = .ok m ∧ m.command ≠ "JOIN") ∧
    ((waitJoin fuel w).1 = .ok () → ∃ m, ms.getLast? = some (.ok m) ∧ m.command = "JOIN" ∧
      m.params = [ircHubChan])
  | 0, w => ⟨[], (List.append_nil _).symm, (List.append_nil _).symm, nofun, nofun⟩
  | fuel + 1, w => by
    rw [waitJoin, bind_of_ok (readMessage_apply w)]
    rcases w.client.reads.headD (.error "EOF") with err | m
    · exact ⟨[.error err], rfl, by simp [pongOf], nofun, nofun⟩
    -- a read the wait goes on after, from the world `w₁`
    have next : ∀ w₁ : World, w₁.client.readLog = w.client.readLog ++ [.ok m] →
        w₁.client.writeLog = w.client.writeLog ++ (pongOf (.ok m)).toList → m.command ≠ "JOIN" →
        ∃ ms, (waitJoin fuel w₁).2.client.readLog = w.client.readLog ++ ms ∧
          (waitJoin fuel w₁).2.client.writeLog = w.client.writeLog ++ ms.filterMap pongOf ∧
          (∀ x ∈ ms.dropLast, ∃ m, x = .ok m ∧ m.command ≠ "JOIN") ∧
          ((waitJoin fuel w₁).1 = .ok () → ∃ m, ms.getLast? = some (.ok m) ∧ m.command = "JOIN" ∧
            m.params = [ircHubChan]) := by
      intro w₁ hr hw hj
      obtain ⟨ms, h₁, h₂, h₃, h₄⟩ := waitJoin_log fuel w₁
      refine ⟨.ok m :: ms, by simp [h₁, hr], ?_, fun x hx => ?_, fun h => ?_⟩
      · rw [h₂, hw, List.append_assoc]
        cases hp : pongOf (.ok m) <;> simp [List.filterMap_cons, hp]
      · cases ms with
        | nil => simp at hx
        | cons y ys =>
          rw [List.dropLast_cons₂] at hx
          rcases List.mem_cons.1 hx with rfl | hx
          · exact ⟨m, rfl, hj⟩
          · exact h₃ x hx
      · obtain ⟨m', hl, hm'⟩ := h₄ h
        cases ms with
        | nil => simp at hl
        | cons y ys => exact ⟨m', by rwa [List.getLast?_cons_cons], hm'⟩
    dsimp only
    by_cases hping : m.command = "PING"
    · -- PING: the PONG is written
      rw [if_pos hping, bind_of_ok (writeMessage_apply _ _)]
      have hpong : pongOf (.ok m) = some { m with command := "PONG" } := by simp [pongOf, hping]
      rcases (w.consume [.ok m]).client.writes.headD none with _ | err
      · exact next _ (by simp) (by simp [hpong]) (by simp [hping])
      · exact ⟨[.ok m], by simp, by simp [hpong], nofun, nofun⟩
    have hpong : pongOf (.ok m) = none := by simp [pongOf, hping]
    rw [if_neg hping]
    by_cases hjoin : m.command = "JOIN"
    · rw [if_pos hjoin]
      split_ifs with hlen hchan
      · exact ⟨[.ok m], by simp, by simp [hpong], nofun, nofun⟩
      · exact ⟨[.ok m], by simp, by simp [hpong], nofun, nofun⟩
      · -- JOIN #hub ends the wait
        refine ⟨[.ok m], by simp, by simp [hpong], nofun, fun _ => ⟨m, rfl, hjoin, ?_⟩⟩
        obtain ⟨a, ha⟩ := List.length_eq_one.1 (not_not.1 hlen)
        rw [ha] at hchan ⊢
        exact congrArg (· :: []) (not_not.1 hchan)
    · rw [if_neg hjoin]
      exact next _ rfl (by simp [hpong]) hjoin

/-! ### The transcript -/

/-- How `ircAccept` from `w` ends, as its client and the registry see it, when
the client's reads while the hub waits for `JOIN` are `ms` and it wrote `l`: it
stops before listing the directory, with a prefix of the greeting, the `PONG`s
and the echo written and no critical section run; or it lists the directory
`w.interfere.peers` in one section and stops with a prefix of the transcript
for it written; or it writes all of it, having read `JOIN #hub` last, and
promotes the peer in the next section, on the registry the other connections
have left by then. -/
inductive AcceptRun (info : HubInfo) (p : IrcPeer) (w : World) (ms : List (Except String Message))
    (l : List Message) : Go HsError Unit × World → Prop
  | early {e : HsError} {w' : World} :
      l <+: welcome info p ++ ms.filterMap pongOf ++ [⟨p.ownPref, "JOIN", [ircHubChan]⟩] →
      w'.reg = w.reg → w'.env = w.env → AcceptRun info p w ms l (.error (.error e), w')
  | listed {e : HsError} {w' : World} : l <+: acceptLog info p ms w.interfere.peers →
      w'.reg = w.interfere → w'.env = w.env.tail → AcceptRun info p w ms l (.error (.error e), w')
  | promoted {w' : World} : l = acceptLog info p ms w.interfere.peers → JoinedHub ms →
      w'.reg = (admitNext w.interfere w.env.tail).accept p.name p.sid (.irc p) →
      w'.env = w.env.tail.tail → AcceptRun info p w ms l (.ok (), w')

theorem check_bind_apply {α : Type} (e : Option String) (k : Unit → Conn HsError α) (w : World) :
    (check e >>= k) w = match e with
      | some err => (.error (.error (.io err)), w)
      | none => k () w := by
  cases e <;> rfl

/-- Whatever the client sends and other connections do, `ircAccept` reads the
messages `ms`, writes `l`, and ends as `AcceptRun` allows. -/
theorem ircAccept_writes (info : HubInfo) (p : IrcPeer) (w : World) :
    ∃ ms l, (ircAccept info p w).2.client.readLog = w.client.readLog ++ ms ∧
      (ircAccept info p w).2.client.writeLog = w.client.writeLog ++ l ∧
      AcceptRun info p w ms l (ircAccept info p w) := by
  have hwa : ∀ ms' : List Message, ClientOnly (writeAll ms' : Conn HsError _) := clientOnly_writeAll
  unfold ircAccept
  -- the greeting
  obtain ⟨e₁, l₁, h₁, hr₁, hw₁, hp₁, hf₁⟩ := @writeAll_log HsError (welcome info p) w
  have hg₁ := (hwa (welcome info p)).reg w
  have he₁ := (hwa (welcome info p)).env w
  rcases hx₁ : writeAll (welcome info p) w with ⟨r₁, w₁⟩
  rw [hx₁] at h₁ hr₁ hw₁ hg₁ he₁
  dsimp only at h₁ hr₁ hw₁ hg₁ he₁
  subst h₁
  rw [bind_of_ok hx₁, check_bind_apply]
  rcases e₁ with _ | err
  swap
  · exact ⟨[], l₁, by simpa using hr₁, hw₁,
      .early (hp₁.trans ⟨_, (List.append_assoc _ _ _).symm⟩) hg₁ he₁⟩
  obtain rfl := hf₁ rfl
  dsimp only
  -- the wait for JOIN
  obtain ⟨ms, hr₂, hw₂, hms, hj⟩ := waitJoin_log (w₁.client.reads.length + 1) w₁
  have hg₂ := (clientOnly_waitJoin (w₁.client.reads.length + 1)).reg w₁
  have he₂ := (clientOnly_waitJoin (w₁.client.reads.length + 1)).env w₁
  rcases hx₂ : waitJoin (w₁.client.reads.length + 1) w₁ with ⟨r₂, w₂⟩
  have hx₂' : withReadFuel waitJoin w₁ = (r₂, w₂) := hx₂
  rw [hx₂] at hr₂ hw₂ hj hg₂ he₂
  dsimp only at hr₂ hw₂ hj hg₂ he₂
  rcases r₂ with f | _
  · obtain ⟨e, rfl⟩ := returns_waitJoin w₁ f (by rw [hx₂'])
    rw [bind_of_error hx₂']
    exact ⟨ms, welcome info p ++ ms.filterMap pongOf, by rw [hr₂, hr₁],
      by rw [hw₂, hw₁, List.append_assoc], .early (List.prefix_append _ _) (hg₂.trans hg₁) (he₂.trans he₁)⟩
  rw [bind_of_ok hx₂']
  -- the JOIN echo
  rw [bind_of_ok (writeMessage_apply w₂ ⟨p.ownPref, "JOIN", [ircHubChan]⟩), check_bind_apply]
  rcases w₂.client.writes.headD none with _ | err
  swap
  · exact ⟨ms, welcome info p ++ ms.filterMap pongOf ++ [⟨p.ownPref, "JOIN", [ircHubChan]⟩],
      by simp [hr₂, hr₁], by simp [hw₂, hw₁], .early (List.prefix_refl _) (by simp [hg₂, hg₁])
      (by simp [he₂, he₁])⟩
  dsimp only
  -- the directory as the accept lists it, and the JOINs for it
  rw [bind_of_ok (peers_apply _)]
  set w₃ := w₂.afterWrite ⟨p.ownPref, "JOIN", [ircHubChan]⟩
  have hi₃ : w₃.interfere = w.interfere := by simp [w₃, World.interfere, hg₂, hg₁, he₂, he₁]
  have he₃ : w₃.env = w.env := by simp [w₃, he₂, he₁]
  obtain ⟨e₄, l₄, h₄, hr₄, hw₄, hp₄, hf₄⟩ := @writeAll_log HsError (p.peersJoin w₃.interfere.peers) w₃.enter
  have hg₄ := (hwa (p.peersJoin w₃.interfere.peers)).reg w₃.enter
  have he₄ := (hwa (p.peersJoin w₃.interfere.peers)).env w₃.enter
  rcases hx₄ : writeAll (p.peersJoin w₃.interfere.peers) w₃.enter with ⟨r₄, w₄⟩
  rw [hx₄] at h₄ hr₄ hw₄ hg₄ he₄
  dsimp only at h₄ hr₄ hw₄ hg₄ he₄
  subst h₄
  rw [bind_of_ok hx₄, check_bind_apply]
  have hlog : w₄.client.writeLog = w.client.writeLog ++
      (welcome info p ++ ms.filterMap pongOf ++ ⟨p.ownPref, "JOIN", [ircHubChan]⟩ :: l₄) := by
    simp [hw₄, w₃, hw₂, hw₁]
  rw [World.enter_reg, hi₃] at hg₄
  rw [World.enter_env, he₃] at he₄
  rcases e₄ with _ | err
  swap
  · obtain ⟨t, ht⟩ := hp₄
    exact ⟨ms, _, by simp [hr₄, w₃, hr₂, hr₁], hlog, .listed ⟨t, by rw [acceptLog, ← hi₃, ← ht]; simp⟩ hg₄ he₄⟩
  obtain rfl := hf₄ rfl
  dsimp only
  rw [bind_of_ok (promote_apply _ _)]
  exact ⟨ms, _, by simp [hr₄, w₃, hr₂, hr₁], hlog, .promoted (by simp [acceptLog, hi₃]) ⟨hms, hj rfl⟩
    (by simp [World.interfere, admitNext, hg₄, he₄]) (by simp [he₄])⟩

section
variable {me : Nat} {p : IrcPeer} {c : Nat × Nat × Nat × Bool} {w : World}

/-- The transcript of `ircAccept`, from where the NICK loop leaves the
connection holding its peer's name: it lists the directory as its first
critical section finds it, without the peer itself, and when it returns it has
promoted the peer in its next one. -/
theorem ircAccept_transcript (info : HubInfo) (hw : Holding me p c w) :
    ∃ ms l, (ircAccept info p w).2.client.readLog = w.client.readLog ++ ms ∧
      (ircAccept info p w).2.client.writeLog = w.client.writeLog ++ l ∧
      l <+: acceptLog info p ms w.interfere.peers ∧ (∀ q ∈ w.interfere.peers, q.id ≠ me) ∧
      ((ircAccept info p w).1 = .ok () → l = acceptLog info p ms w.interfere.peers ∧ JoinedHub ms ∧
        (ircAccept info p w).2.reg = (admitNext w.interfere w.env.tail).accept p.name p.sid (.irc p)) := by
  obtain ⟨ms, l, hr, hwl, h⟩ := ircAccept_writes info p w
  generalize ircAccept info p w = res at hr hwl h ⊢
  have hpre : l <+: acceptLog info p ms w.interfere.peers := by
    cases h with
    | early hl => exact hl.trans ⟨p.peersJoin w.interfere.peers, by simp [acceptLog]⟩
    | listed hl => exact hl
    | promoted hl => exact hl ▸ List.prefix_refl _
  refine ⟨ms, l, hr, hwl, hpre, (hw.1.interfere_reserving hw.2.1).peers_ne, fun hok => ?_⟩
  cases h with
  | early => cases hok
  | listed => cases hok
  | promoted hl hj hreg => exact ⟨hl, hj, hreg⟩

theorem ircAccept_transcript_bob :
    let p : IrcPeer := ⟨1, 1, "bob", "bob", "localhost"⟩
    let w : World := ⟨⟨[.ok ⟨⟨"bob", "", ""⟩, "PING", ["x"]⟩, .ok ⟨⟨"bob", "", ""⟩, "JOIN", ["#hub"]⟩],
      [], [], []⟩, ⟨(∅ : AList fun _ : String => Nat).insert "bob" 1, ∅, ∅, 1⟩, [], 1, 0, 0, false⟩
    let info : HubInfo := ⟨"hub", "go-dcpp", "1.0", "Mon Jan 2 2006", "15:04:05", "localhost", "6667", ""⟩
    Holding 1 p (1, 0, 0, false) w ∧
      ∃ ms l, (ircAccept info p w).2.client.readLog = w.client.readLog ++ ms ∧
        (ircAccept info p w).2.client.writeLog = w.client.writeLog ++ l ∧
        l <+: acceptLog info p ms w.interfere.peers ∧ (∀ q ∈ w.interfere.peers, q.id ≠ 1) ∧
        ((ircAccept info p w).1 = .ok () → l = acceptLog info p ms w.interfere.peers ∧ JoinedHub ms ∧
          (ircAccept info p w).2.reg = (admitNext w.interfere w.env.tail).accept p.name p.sid (.irc p)) :=
  have hw : Holding 1 ⟨1, 1, "bob", "bob", "localhost"⟩ (1, 0, 0, false)
      ⟨⟨[.ok ⟨⟨"bob", "", ""⟩, "PING", ["x"]⟩, .ok ⟨⟨"bob", "", ""⟩, "JOIN", ["#hub"]⟩], [], [], []⟩,
        ⟨(∅ : AList fun _ : String => Nat).insert "bob" 1, ∅, ∅, 1⟩, [], 1, 0, 0, false⟩ :=
    ⟨nofun, ⟨AList.lookup_insert _, fun n hn => by
      rw [AList.lookup_insert_ne (show n ≠ "bob" from hn), AList.lookup_empty]; exact nofun,
      fun _ _ h => by simp [AList.lookup_empty] at h, fun _ _ h => by simp [AList.lookup_empty] at h⟩, rfl⟩
  ⟨hw, ircAccept_transcript _ hw⟩

end

/-! ### What the client reads -/

/-! The conditions of a readable message decide themselves on a literal. -/

instance decidableNoBreak (l : List Char) : Decidable (NoBreak l) :=
  inferInstanceAs (Decidable (∀ c ∈ l, c ≠ '\r' ∧ c ≠ '\n'))

instance decidableWord (l : List Char) : Decidable (Word l) :=
  inferInstanceAs (Decidable (' ' ∉ l ∧ NoBreak l))

instance decidableMiddle (l : List Char) : Decidable (Middle l) :=
  inferInstanceAs (Decidable (l ≠ [] ∧ l.head? ≠ some ':' ∧ Word l))

/-- Hub settings and a peer whose greeting a client reads back: the host can
stand as the hub's prefix and as a middle parameter, and so can the version
`softName-softVersion`; the hub's name, the port and the creation times hold no
line end; and the peer's nick and user can stand in its own prefix. -/
structure Greetable (info : HubInfo) (p : IrcPeer) : Prop where
  host : p.host = info.host
  hostMiddle : Middle info.host.data
  hostBang : '!' ∉ info.host.data
  hostAt : '@' ∉ info.host.data
  vers : Middle (info.softName ++ "-" ++ info.softVersion).data
  name : NoBreak info.name.data
  port : NoBreak info.port.data
  created : NoBreak info.created.data
  createdUTC : NoBreak info.createdUTC.data
  nick : NickSafe p.name
  nickColon : p.name.data.head? ≠ some ':'
  user : Word p.user.data
  userAt : '@' ∉ p.user.data

section
variable {info : HubInfo} {p : IrcPeer}

theorem Greetable.hostPref (hg : Greetable info p) : p.hostPref.Readable := by
  obtain ⟨hne, -, hw⟩ := hg.hostMiddle
  rw [IrcPeer.hostPref, hg.host]
  exact ⟨hne, hw, hg.hostBang, hg.hostAt, by simp [Word], by simp, by simp [Word]⟩

theorem Greetable.nickMiddle (hg : Greetable info p) : Middle p.name.data :=
  ⟨hg.nick.ne_nil, hg.nickColon, hg.nick.2.1⟩

theorem welcome_readable (hg : Greetable info p) : ∀ m ∈ welcome info p, m.Readable := by
  have hn := hg.nickMiddle
  have hw := hg.nick.2.1.2
  have hh := hg.hostMiddle
  have hv := hg.vers
  have hhw := hh.2.2.2
  have hvw := hv.2.2.2
  simp only [String.data_append, noBreak_append] at hv hvw
  simp only [welcome, List.mem_cons, List.mem_singleton, List.not_mem_nil, or_false]
  rintro m (rfl | rfl | rfl | rfl | rfl) <;> refine ⟨hg.hostPref, by simp, by simp [Word, NoBreak], rfl, ?_, ?_⟩
  all_goals simp only [List.dropLast_cons₂, List.dropLast_single, List.getLast?_cons_cons,
    List.getLast?_singleton, List.forall_mem_cons, List.mem_singleton, Option.mem_def,
    Option.some.injEq, forall_eq, forall_eq', String.data_append, noBreak_append, hn, hh, hv, hw,
    hhw, hvw.1.1, hvw.2, hg.name, hg.port, hg.created, hg.createdUTC, true_and, and_true]
  all_goals decide

/-- The `PONG` for a `PING` the client can read back can be read back too. -/
theorem pongOf_readable {x : Except String Message} {m' : Message} (h : pongOf x = some m')
    (hx : ∀ m, x = .ok m → m.command = "PING" → m.Readable) : m'.Readable := by
  rcases x with _ | m
  · cases h
  · simp only [pongOf] at h
    split_ifs at h with hping
    cases h
    obtain ⟨hp, -, -, -, hmid, htr⟩ := hx m rfl hping
    exact ⟨hp, by simp, by simp [Word, NoBreak], rfl, hmid, htr⟩

theorem acceptLog_readable {ms : List (Except String Message)} {roster : List Peer}
    (hg : Greetable info p) (hpings : ∀ m, .ok m ∈ ms → m.command = "PING" → m.Readable)
    (hroster : p.Clean (.peersJoin roster)) : ∀ m ∈ acceptLog info p ms roster, m.Readable := by
  have hhost : Word p.host.data := hg.host ▸ hg.hostMiddle.2.2
  simp only [acceptLog, List.mem_append, List.mem_cons]
  rintro m ((hm | hm) | rfl | hm)
  · exact welcome_readable hg m hm
  · obtain ⟨x, hx, hpong⟩ := List.mem_filterMap.1 hm
    exact pongOf_readable hpong fun m' he => hpings m' (he ▸ hx)
  · have hn := hg.nick
    exact ⟨⟨hn.ne_nil, hn.2.1, hn.2.2.1, hn.2.2.2, hg.user, hg.userAt, hhost⟩, by simp,
      by simp [Word, NoBreak], rfl, by simp, by simp [ircHubChan, NoBreak]⟩
  · exact messages_readable hhost hroster m hm

/-- When the hub's settings and the peer are clean, its clients' `PING`s can be
read back and the listed peers are clean senders, a client parses from the
bytes of the accept's transcript exactly the messages of it, in order: the five
numerics with every `004` and `005` token a parameter of its own, a `PONG` for
each `PING`, its own `JOIN`, and a `JOIN` from each listed peer. -/
theorem readMessages_acceptLog (info : HubInfo) (p : IrcPeer) (ms : List (Except String Message))
    (roster : List Peer) (hg : Greetable info p)
    (hpings : ∀ m, .ok m ∈ ms → m.command = "PING" → m.Readable)
    (hroster : p.Clean (.peersJoin roster)) :
    readMessages ((acceptLog info p ms roster).map writeMessage).flatten = acceptLog info p ms roster :=
  readMessages_writeAll (acceptLog_readable hg hpings hroster)


theorem readMessages_acceptLog_bob :
    let info : HubInfo := ⟨"hub", "go-dcpp", "1.0", "Mon Jan 2 2006", "15:04:05", "localhost", "6667", ""⟩
    let p : IrcPeer := ⟨1, 1, "bob", "bob", "localhost"⟩
    let ms : List (Except String Message) :=
      [.ok ⟨⟨"bob", "bob", "home"⟩, "PING", ["x"]⟩, .ok ⟨⟨"bob", "bob", "home"⟩, "JOIN", ["#hub"]⟩]
    Greetable info p ∧ (∀ m, .ok m ∈ ms → m.command = "PING" → m.Readable) ∧
      p.Clean (.peersJoin [.other 2 "alice"]) ∧
      readMessages ((acceptLog info p ms [.other 2 "alice"]).map writeMessage).flatten =
        acceptLog info p ms [.other 2 "alice"] :=
  have hnick : NickSafe "bob" := ⟨rfl, by decide, by decide, by decide⟩
  have hg : Greetable ⟨"hub", "go-dcpp", "1.0", "Mon Jan 2 2006", "15:04:05", "localhost", "6667", ""⟩
      ⟨1, 1, "bob", "bob", "localhost"⟩ :=
    ⟨rfl, by decide, by decide, by decide, by decide, by decide, by decide, by decide, by decide, hnick,
      by decide, by decide, by decide⟩
  have hpings : ∀ m, Except.ok m ∈ ([.ok ⟨⟨"bob", "bob", "home"⟩, "PING", ["x"]⟩,
      .ok ⟨⟨"bob", "bob", "home"⟩, "JOIN", ["#hub"]⟩] : List (Except String Message)) →
      m.command = "PING" → m.Readable := by
    simp only [List.mem_cons, Except.ok.injEq, List.not_mem_nil, or_false]
    rintro m (rfl | rfl) h
    · exact ⟨⟨by decide, by decide, by decide, by decide, by decide, by decide, by decide⟩, by decide,
        by decide, rfl, by decide, by decide⟩
    · exact absurd h (by decide)
  have hroster : IrcPeer.Clean ⟨1, 1, "bob", "bob", "localhost"⟩ (.peersJoin [.other 2 "alice"]) := by
    simp only [IrcPeer.Clean, List.mem_singleton, forall_eq]
    exact ⟨rfl, by decide, by decide, by decide⟩
  ⟨hg, hpings, hroster, readMessages_acceptLog _ _ _ _ hg hpings hroster⟩

end

end DcHub.Irc

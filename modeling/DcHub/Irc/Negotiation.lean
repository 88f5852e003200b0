import DcHub.Irc.Handshake

/-! # Negotiating a nickname

What the NICK loop of `ircHandshake` does with the messages it reads and the
registries its critical sections find, stated in the spec's terms as the
relation `Negotiation`: `NICK`, then `USER`, then `NICK` again after each `433`,
which goes to a valid name exactly when `nameAvailable` refuses it or
`reserveName` finds it taken. The registries are those of a `Trace` of the
run, so they are what the other connections left. The loop departs from the
spec in one place: a name that `validateUserName` rejects ends the handshake
with that error instead of a `433`. `nickLoop_run` follows the loop pass by
pass; it also records what a run does to the registry, which the reservation
lifecycle builds on.
-/

namespace DcHub.Irc

open DcHub.Hub Conn

/-- `m` is the command `cmd` with `arity` parameters, the first `x`. -/
def Message.IsCommand (cmd : String) (arity : Nat) (m : Message) (x : String) : Prop :=
  m.command = cmd ∧ m.params.length = arity ∧ m.params.head? = some x

/-- `m` asks for the name `n`: `NICK` with the one parameter `n`. -/
def Message.IsNick : Message → String → Prop := Message.IsCommand "NICK" 1

/-- `m` is `USER` with four parameters, the first `u`. -/
def Message.IsUser : Message → String → Prop := Message.IsCommand "USER" 4

/-- How a read for `cmd` fails with the errors `onRead` and `onGot`: the read
fails, or the message is not `cmd` with `arity` parameters. -/
inductive ReadFails (cmd : String) (arity : Nat) (onRead : String → HsError)
    (onGot : Message → HsError) : Except String Message → HsError → Prop
  | read (e : String) : ReadFails cmd arity onRead onGot (.error e) (onRead e)
  | other (m : Message) : (∀ x, ¬ m.IsCommand cmd arity x) →
      ReadFails cmd arity onRead onGot (.ok m) (onGot m)

/-- How the read of `NICK` fails. -/
def NickFails : Except String Message → HsError → Prop :=
  ReadFails "NICK" 1 .expectedNick .expectedNickGot

/-- How the read of `USER` fails. -/
def UserFails : Except String Message → HsError → Prop :=
  ReadFails "USER" 4 .expectedUser .expectedUserGot

/-- The messages a pass reads for its name `n` and the user `u`: `NICK` alone
once the user is known, `NICK` then `USER` the first time. -/
inductive Asks : Option String → List (Except String Message) → String → String → Prop
  | again {m : Message} {n u : String} : m.IsNick n → Asks (some u) [.ok m] n u
  | first {m m' : Message} {n u : String} : m.IsNick n → m'.IsUser u →
      Asks none [.ok m, .ok m'] n u

/-- What `tryName` finds for the name `n` in the registries of its critical
sections, and whether it reserves `n` for `me`: `nameAvailable` refuses it; or
it is free there but taken by the time `reserveName` runs; or both find it free
and `me` reserves it. -/
inductive Attempt (me : Nat) (n : String) : List (Registry × Option RegOp) → Bool → Prop
  | unavailable {v : Registry} : v.nameAvailable n = false → Attempt me n [(v, none)] false
  | lost {v v' : Registry} : v.nameAvailable n = true → v'.nameAvailable n = false →
      Attempt me n [(v, none), (v', some (.reserve n me))] false
  | reserved {v v' : Registry} : v.nameAvailable n = true → v'.nameAvailable n = true →
      Attempt me n [(v, none), (v', some (.reserve n me))] true

/-- The nickname negotiation of the spec, except that an invalid name ends it
with the validation error: reading the messages `ms` in order, with the user
`u` once it is known, and finding the registries of `tr` in its critical
sections, the loop writes the replies `out` and ends with `r`. A valid name the
registry does not give gets `reply` and the loop reads on. -/
inductive Negotiation (reply : String → Message) (me : Nat) :
    Option String → List (Registry × Option RegOp) → List (Except String Message) → List Message →
      Except HsError (String × String) → Prop
  | nickFails {u r e} : NickFails r e → Negotiation reply me u [] [r] [] (.error e)
  | userFails {m n r e} : m.IsNick n → UserFails r e →
      Negotiation reply me none [] [.ok m, r] [] (.error e)
  | invalid {u ms n v e} : Asks u ms n v → validateUserName n = .error e →
      Negotiation reply me u [] ms [] (.error (.invalidName e))
  | taken {u ms n v tr tr' ms' out r} : Asks u ms n v → validateUserName n = .ok () →
      Attempt me n tr false → Negotiation reply me (some v) tr' ms' out r →
      Negotiation reply me u (tr ++ tr') (ms ++ ms') (reply n :: out) r
  | reserved {u ms n v tr} : Asks u ms n v → validateUserName n = .ok () → Attempt me n tr true →
      Negotiation reply me u tr ms [] (.ok (n, v))

/-! ### One spec lemma per step -/

theorem readCommand_spec {cmd : String} {arity : Nat} {onRead : String → HsError}
    {onGot : Message → HsError} (harity : 0 < arity) (w : World) :
    (∃ m x, w.client.reads.headD (.error "EOF") = .ok m ∧ m.IsCommand cmd arity x ∧
      readCommand cmd arity onRead onGot w = (.ok x, w.consume [.ok m])) ∨
    (∃ e, ReadFails cmd arity onRead onGot (w.client.reads.headD (.error "EOF")) e ∧
      readCommand cmd arity onRead onGot w =
        (.error (.error e), w.consume [w.client.reads.headD (.error "EOF")])) := by
  rw [readCommand, bind_of_ok (readMessage_apply w)]
  generalize w.client.reads.headD (.error "EOF") = r
  rcases r with e | m
  · exact .inr ⟨_, .read e, rfl⟩
  · simp only
    split_ifs with h
    · refine .inr ⟨_, .other m fun x hx => ?_, rfl⟩
      simp [hx.1, hx.2.1] at h
    · push_neg at h
      obtain ⟨x, xs, hx⟩ :=
        List.exists_cons_of_length_eq_add_one (h.2.trans (Nat.succ_pred_eq_of_pos harity).symm)
      exact .inl ⟨m, x, rfl, ⟨h.1, h.2, by simp [hx]⟩, by simp [hx]⟩

theorem readCommand_of_isCommand {cmd : String} {arity : Nat} {onRead : String → HsError}
    {onGot : Message → HsError} {w : World} {m : Message} {x : String}
    (hr : w.client.reads.headD (.error "EOF") = .ok m) (hm : m.IsCommand cmd arity x) :
    readCommand cmd arity onRead onGot w = (.ok x, w.consume [.ok m]) := by
  obtain ⟨hc, hl, hx⟩ := hm
  rw [readCommand, bind_of_ok (readMessage_apply w), hr]
  cases hp : m.params with
  | nil => simp [hp] at hx
  | cons y ys => simp_all

theorem tryName_spec (pref : Prefix) (taken : String) (me : Nat) (n : String) (w : World) :
    ∃ b w' tr, tryName pref taken me n w = (.ok b, w') ∧ Trace w.reg w.env tr w'.reg w'.env ∧
      Attempt me n tr b ∧ w'.client.reads = w.client.reads ∧
      w'.client.readLog = w.client.readLog ∧
      w'.client.writeLog = w.client.writeLog ++ (if b then [] else [nickTakenReply pref taken n]) ∧
      w'.unbinds = w.unbinds ∧ w'.leaves = w.leaves ∧ w'.closed = w.closed ∧
      (b = true → w'.reg.reserved.lookup n = some me) ∧ (w.Rely me → w'.Rely me) ∧
      (w.Rely me → w.reg.Clear me →
        if b then w'.reg.Reserving me n ∧ w'.reserves = w.reserves + 1
        else w'.reg.Clear me ∧ w'.reserves = w.reserves) := by
  cases ha : w.interfere.nameAvailable n
  · refine ⟨false, w.enter.afterWrite (nickTakenReply pref taken n), [(w.interfere, none)],
      by simp [tryName, ha], .read .done, .unavailable ha, by simp, by simp, by simp, by simp, by simp,
      by simp, nofun, fun h => h.enter, fun h hc => ?_⟩
    simpa using h.interfere_clear hc
  · cases hr : w.enter.interfere.reserveName n me with
    | none =>
      refine ⟨false, w.enter.enter.afterWrite (nickTakenReply pref taken n),
        [(w.interfere, none), (w.enter.interfere, some (.reserve n me))],
        by simp [tryName, ha, reserveName_of_none _ hr], .read (.own ?_),
        .lost ha (Registry.reserveName_eq_none hr), by simp, by simp, by simp, by simp, by simp,
        by simp, nofun, fun h => h.enter.enter, fun h hc => ?_⟩
      · have hv : (RegOp.reserve n me).apply w.enter.interfere = w.enter.interfere := by
          simp [RegOp.apply, hr]
        exact hv ▸ .done
      · simpa using h.enter.interfere_clear (by simpa using h.interfere_clear hc)
    | some r =>
      obtain ⟨h₁, h₂, hr'⟩ := Registry.reserveName_eq_some hr
      refine ⟨true, { w.enter.enter with reg := r, reserves := w.enter.reserves + 1 },
        [(w.interfere, none), (w.enter.interfere, some (.reserve n me))],
        by simp [tryName, ha, reserveName_of_some _ hr], .read (.own ?_),
        .reserved ha (by simp [Registry.nameAvailable, h₁, h₂]), by simp, by simp, by simp, by simp,
        by simp, by simp, fun _ => by rw [hr']; exact AList.lookup_insert _, fun h => h.enter.enter,
        fun h hc => ?_⟩
      · have hv : (RegOp.reserve n me).apply w.enter.interfere = r := by simp [RegOp.apply, hr]
        exact hv ▸ .done
      · exact ⟨(h.enter.interfere_clear (by simpa using h.interfere_clear hc)).reserveName hr, by simp⟩

/-! ### A run of the loop -/

/-- What a run of the NICK loop from `w`, with the user `u` once known, came to
in `res`. It read `ms`, found the registries of a trace `tr` of its sections and
wrote `out` as `Negotiation` allows for its outcome,
holds the reservation of a name it returns, and left the other counts alone.
When other connections keep off `me`'s entries and `w` holds none, it ends
holding the reservation of the name it returns and nothing else, or nothing. -/
structure NickRun (reply : String → Message) (me : Nat) (u : Option String) (w : World)
    (res : Go HsError (String × String) × World) : Prop where
  negotiation : ∃ ms out tr r, res.1 = r.mapError .error ∧
    res.2.client.readLog = w.client.readLog ++ ms ∧
    res.2.client.writeLog = w.client.writeLog ++ out ∧ Trace w.reg w.env tr res.2.reg res.2.env ∧
    Negotiation reply me u tr ms out r
  reserved : ∀ n v, res.1 = .ok (n, v) → res.2.reg.reserved.lookup n = some me
  unbinds : res.2.unbinds = w.unbinds
  leaves : res.2.leaves = w.leaves
  closed : res.2.closed = w.closed
  rely : w.Rely me → res.2.Rely me
  ok : w.Rely me → w.reg.Clear me → ∀ n v, res.1 = .ok (n, v) →
    res.2.reg.Reserving me n ∧ res.2.reserves = w.reserves + 1
  error : w.Rely me → w.reg.Clear me → ∀ e, res.1 = .error e →
    res.2.reg.Clear me ∧ res.2.reserves = w.reserves

variable {reply : String → Message} {me : Nat} {u : Option String} {w : World}

/-- A run that fails on the reads `ms`. -/
theorem NickRun.of_fail {ms : List (Except String Message)} {e : HsError}
    (h : Negotiation reply me u [] ms [] (.error e)) :
    NickRun reply me u w (.error (.error e), w.consume ms) where
  negotiation := ⟨ms, [], [], .error e, rfl, rfl, by simp, .done, h⟩
  reserved := by simp
  unbinds := rfl
  leaves := rfl
  closed := rfl
  rely h := h
  ok := by simp
  error _ hc _ _ := ⟨hc, rfl⟩

/-- A pass that got a `433` for `n` and left the next pass in `w'`: whatever
the next passes do, the run from `w` does with the pass before it. -/
theorem NickRun.taken {ms : List (Except String Message)} {n v : String} {w' : World}
    {res : Go HsError (String × String) × World} {tr : List (Registry × Option RegOp)}
    (hasks : Asks u ms n v) (hv : validateUserName n = .ok ()) (htr : Trace w.reg w.env tr w'.reg w'.env)
    (hatt : Attempt me n tr false) (hrl : w'.client.readLog = w.client.readLog ++ ms)
    (hwl : w'.client.writeLog = w.client.writeLog ++ [reply n]) (hu : w'.unbinds = w.unbinds)
    (hl : w'.leaves = w.leaves) (hc : w'.closed = w.closed) (hrely : w.Rely me → w'.Rely me)
    (hreg : w.Rely me → w.reg.Clear me → w'.reg.Clear me ∧ w'.reserves = w.reserves)
    (h : NickRun reply me (some v) w' res) : NickRun reply me u w res where
  negotiation := by
    obtain ⟨ms', out, tr', r, h1, h2, h3, h4, h5⟩ := h.negotiation
    exact ⟨ms ++ ms', reply n :: out, tr ++ tr', r, h1, by simp [h2, hrl], by simp [h3, hwl],
      htr.trans h4, .taken hasks hv hatt h5⟩
  reserved := h.reserved
  unbinds := h.unbinds.trans hu
  leaves := h.leaves.trans hl
  closed := h.closed.trans hc
  rely hr := h.rely (hrely hr)
  ok hr hc n v hres := by
    obtain ⟨h1, h2⟩ := h.ok (hrely hr) (hreg hr hc).1 n v hres
    exact ⟨h1, by rw [h2, (hreg hr hc).2]⟩
  error hr hc e hres := by
    obtain ⟨h1, h2⟩ := h.error (hrely hr) (hreg hr hc).1 e hres
    exact ⟨h1, h2.trans (hreg hr hc).2⟩

theorem nickLoop_run (pref : Prefix) (taken : String) (me : Nat) :
    ∀ fuel name user (w : World), w.client.reads.length < fuel →
      NickRun (nickTakenReply pref taken) me (if name = "" then none else some user) w
        (nickLoop pref taken me fuel name user w) := by
  intro fuel
  induction fuel with
  | zero => intro _ _ _ h; exact absurd h (Nat.not_lt_zero _)
  | succ fuel ih =>
    intro name user w hf
    rw [nickLoop, readNick]
    rcases @readCommand_spec "NICK" 1 .expectedNick .expectedNickGot (by decide) w with
      ⟨m, n, hm, hn, hrd⟩ | ⟨e, hfail, hrd⟩
    · rw [bind_of_ok hrd]
      have h₁ := World.length_consume_lt _ hm (.ok m)
      -- the end of the pass, once it has read `ms`
      have rest : ∀ ms v, Asks (if name = "" then none else some user) ms n v →
          (w.consume ms).client.reads.length < fuel →
          NickRun (nickTakenReply pref taken) me (if name = "" then none else some user) w
            (settleName pref taken me (nickLoop pref taken me fuel) n v (w.consume ms)) := by
        intro ms v hasks hlen
        unfold settleName
        cases hv : validateUserName n with
        | error err => exact .of_fail (.invalid hasks hv)
        | ok _ =>
          obtain ⟨b, w', tr, htry, htr, hatt, hr, hrl, hwl, hu, hl, hc, hres, hrely, hreg⟩ :=
            tryName_spec pref taken me n (w.consume ms)
          simp only
          rw [bind_of_ok htry]
          cases b with
          | true =>
            exact { negotiation := ⟨ms, [], tr, .ok (n, v), rfl, by simp [hrl], by simp [hwl], htr,
                      .reserved hasks hv hatt⟩
                    reserved := fun n' v' h => by cases h; exact hres rfl
                    unbinds := hu
                    leaves := hl
                    closed := hc
                    rely := hrely
                    ok := fun hr' hc' n' v' h => by cases h; simpa using hreg hr' hc'
                    error := by simp }
          | false =>
            have hne : n ≠ "" := by rintro rfl; simp [validateUserName] at hv
            have hnext := ih n v w' (by rw [hr]; exact hlen)
            rw [if_neg hne] at hnext
            exact hnext.taken hasks hv htr hatt (by simp [hrl]) (by simp [hwl]) hu hl hc hrely
              (fun hr' hc' => by simpa using hreg hr' hc')
      by_cases hname : name = ""
      · subst hname
        simp only [↓reduceIte, readUser] at rest ⊢
        rcases @readCommand_spec "USER" 4 .expectedUser .expectedUserGot (by decide)
            (w.consume [.ok m]) with ⟨m', v, hm', hv', hrd'⟩ | ⟨e, hfail, hrd'⟩
        · have h₂ := World.length_consume_lt _ hm' (.ok m')
          rw [bind_of_ok hrd', World.consume_append] at *
          exact rest _ v (.first hn hv') (by omega)
        · rw [bind_of_error hrd', World.consume_append]
          exact .of_fail (.userFails hn hfail)
      · simp only [hname, ↓reduceIte] at rest ⊢
        rw [bind_of_ok (pure_apply _ _)]
        exact rest _ user (.again hn) (by omega)
    · rw [bind_of_error hrd]
      exact .of_fail (.nickFails hfail)

/-- With any messages from the client and any sections of other connections,
the NICK loop reads and replies as `Negotiation` allows, over the registries
its critical sections find, always ends, and holds the reservation of the name
it returns. -/
theorem nickPhase_negotiates (info : HubInfo) (me : Nat) (w : World) :
    ∃ ms out tr r, (nickPhase info me w).1 = r.mapError .error ∧
      (nickPhase info me w).2.client.readLog = w.client.readLog ++ ms ∧
      (nickPhase info me w).2.client.writeLog = w.client.writeLog ++ out ∧
      Trace w.reg w.env tr (nickPhase info me w).2.reg (nickPhase info me w).2.env ∧
      Negotiation (nickTakenReply ⟨info.host, "", ""⟩ info.nickTaken) me none tr ms out r ∧
      ∀ n v, r = .ok (n, v) → (nickPhase info me w).2.reg.reserved.lookup n = some me := by
  have h := nickLoop_run ⟨info.host, "", ""⟩ info.nickTaken me _ "" "" w (Nat.lt_succ_self _)
  obtain ⟨ms, out, tr, r, h1, h2, h3, h4, h5⟩ := h.negotiation
  exact ⟨ms, out, tr, r, h1, h2, h3, h4, h5, fun n v hr => h.reserved n v (by rw [h1, hr]; rfl)⟩

/-- A first `NICK` whose name `validateUserName` rejects gets no `433`: the
handshake ends with the validation error, having read that `NICK` and the
`USER` after it and nothing more, written nothing, and left the registry as it
was. -/
theorem nickPhase_invalidName_aborts (info : HubInfo) (me : Nat) (w : World) (m m' : Message)
    (n u e : String) (rest : List (Except String Message))
    (hr : w.client.reads = .ok m :: .ok m' :: rest) (hn : m.IsNick n) (hu : m'.IsUser u)
    (he : validateUserName n = .error e) :
    nickPhase info me w = (.error (.error (.invalidName e)), w.consume [.ok m, .ok m']) := by
  rw [nickPhase, withReadFuel, hr, nickLoop, readNick,
    bind_of_ok (readCommand_of_isCommand (by rw [hr]; rfl) hn)]
  simp only [↓reduceIte, readUser]
  rw [bind_of_ok (readCommand_of_isCommand (by simp [hr]) hu), settleName, he, World.consume_append]
  rfl

theorem nickPhase_invalidName_aborts_foo :
    let w : World := ⟨⟨[.ok ⟨⟨"", "", ""⟩, "NICK", ["#foo"]⟩, .ok ⟨⟨"", "", ""⟩, "USER", ["u", "0", "*", "u"]⟩,
      .ok ⟨⟨"", "", ""⟩, "NICK", ["bob"]⟩], [], [], []⟩, ⟨∅, ∅, ∅, 0⟩, [], 0, 0, 0, false⟩
    w.client.reads = .ok ⟨⟨"", "", ""⟩, "NICK", ["#foo"]⟩ :: .ok ⟨⟨"", "", ""⟩, "USER", ["u", "0", "*", "u"]⟩ ::
        [.ok ⟨⟨"", "", ""⟩, "NICK", ["bob"]⟩] ∧
      Message.IsNick ⟨⟨"", "", ""⟩, "NICK", ["#foo"]⟩ "#foo" ∧
      Message.IsUser ⟨⟨"", "", ""⟩, "USER", ["u", "0", "*", "u"]⟩ "u" ∧
      validateUserName "#foo" = .error "name should not start with '#'" ∧
      nickPhase ⟨"hub", "", "", "", "", "localhost", "6667", ""⟩ 1 w =
        (.error (.error (.invalidName "name should not start with '#'")),
          w.consume [.ok ⟨⟨"", "", ""⟩, "NICK", ["#foo"]⟩, .ok ⟨⟨"", "", ""⟩, "USER", ["u", "0", "*", "u"]⟩]) :=
  ⟨rfl, ⟨rfl, rfl, rfl⟩, ⟨rfl, rfl, rfl⟩, rfl,
    nickPhase_invalidName_aborts _ 1 _ _ _ "#foo" "u" _ _ rfl ⟨rfl, rfl, rfl⟩ ⟨rfl, rfl, rfl⟩ rfl⟩

end DcHub.Irc

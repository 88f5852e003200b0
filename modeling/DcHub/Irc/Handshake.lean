import DcHub.Irc.Conn

/-! # The IRC handshake

`ircHandshake` reads `NICK`, and `USER` after the first one, until the hub
reserves a name for the connection; `ircAccept` then greets the client, waits
for it to join `#hub`, sends it the roster and promotes the reservation, and the
handshake gives the name back if the accept fails. `ircPeer.Close` leaves the
hub on its first call only.
-/

namespace DcHub.Irc

open DcHub.Hub Conn

/-- What the handshake reads from outside the IRC code: the hub's name and
software, when it was created as `h.created.Format` and `h.created.UTC().Format`
print it, the connection's local host and port, and the text of
`errNickTaken`. -/
structure HubInfo where
  name : String
  softName : String
  softVersion : String
  created : String
  createdUTC : String
  host : String
  port : String
  nickTaken : String

/-- The errors `ircHandshake` returns. Where the source formats a message with
`%#v`, which prints Go pointers, the error keeps the message. -/
inductive HsError where
  /-- `expected nick: %v` -/
  | expectedNick (err : String)
  /-- `expected nick, got: %#v` -/
  | expectedNickGot (m : Message)
  /-- `expected user: %v` -/
  | expectedUser (err : String)
  /-- `expected user, got: %#v` -/
  | expectedUserGot (m : Message)
  /-- the error of `validateUserName`, returned as it is -/
  | invalidName (err : String)
  /-- a read or write error in `ircAccept`, returned as it is -/
  | io (err : String)
  /-- `expected the channel name, got: %#v` -/
  | expectedChannel (m : Message)
  /-- `expected the user to join %s, got: %q`, with `ircHubChan` -/
  | expectedHubChan (channel : String)

/-- The `433` a rejected name gets: `433 * <name> :<errNickTaken>`. -/
def nickTakenReply (pref : Prefix) (taken name : String) : Message :=
  ⟨pref, "433", ["*", name, taken]⟩

/-- Runs a loop that reads on every pass with one pass for each message the
client has left and one for the read that finds none. -/
def withReadFuel {ε α : Type} (loop : Nat → Conn ε α) : Conn ε α := fun w =>
  loop (w.client.reads.length + 1) w

/-! ### The NICK loop -/

/-- A read that expects `cmd` with `arity` parameters and returns the first;
`onRead` and `onGot` make the error for a failed read and for another message. -/
def readCommand (cmd : String) (arity : Nat) (onRead : String → HsError)
    (onGot : Message → HsError) : Conn HsError String := do
  match ← Conn.readMessage with
  | .error err => fail (.error (onRead err))
  | .ok m =>
    if m.command ≠ cmd ∨ m.params.length ≠ arity then fail (.error (onGot m))
    else pure (m.params.headD "")

/-- The loop's read of `NICK`: the name asked for. -/
def readNick : Conn HsError String := readCommand "NICK" 1 .expectedNick .expectedNickGot

/-- The read of `USER` after the first `NICK`: the user. -/
def readUser : Conn HsError String := readCommand "USER" 4 .expectedUser .expectedUserGot

/-- The rest of a pass for a valid name: a `433` if the name is not available,
else an attempt to reserve it, and a `433` if that fails; whether it is
reserved. -/
def tryName (pref : Prefix) (taken : String) (me : Nat) (name : String) : Conn HsError Bool := do
  if ← Conn.nameAvailable name then
    if ← Conn.reserveName name me then pure true
    else do
      let _ ← Conn.writeMessage (nickTakenReply pref taken name)
      pure false
  else do
    let _ ← Conn.writeMessage (nickTakenReply pref taken name)
    pure false

/-- The end of a pass once the name `tname` and the user are read: the error of
`validateUserName`, or the name if `tryName` reserves it, or the next pass. -/
def settleName (pref : Prefix) (taken : String) (me : Nat)
    (next : String → String → Conn HsError (String × String)) (tname user : String) :
    Conn HsError (String × String) :=
  match validateUserName tname with
  | .error err => fail (.error (.invalidName err))
  | .ok () => do
    if ← tryName pref taken me tname then pure (tname, user)
    else next tname user

/-- The `for` loop of `ircHandshake`, from the last name tried (`""` before the
first) and the user. -/
def nickLoop (pref : Prefix) (taken : String) (me : Nat) :
    Nat → String → String → Conn HsError (String × String)
  | 0, _, _ => fail .diverge
  | fuel + 1, name, user => do
    let tname ← readNick
    let user ← if name = "" then readUser else pure user
    settleName pref taken me (nickLoop pref taken me fuel) tname user

/-- The NICK loop as `ircHandshake` starts it, under the hub's own prefix. -/
def nickPhase (info : HubInfo) (me : Nat) : Conn HsError (String × String) :=
  withReadFuel (nickLoop ⟨info.host, "", ""⟩ info.nickTaken me · "" "")

/-! ### The accept -/

/-- Writes the messages in order and stops at the first write that fails, with
its error: the loop of `PeersJoin`, and the welcome writes of `ircAccept`. -/
def writeAll {ε : Type} : List Message → Conn ε (Option String)
  | [] => pure none
  | m :: ms => do
    match ← Conn.writeMessage m with
    | some err => pure (some err)
    | none => writeAll ms

/-- `if err != nil { return err }`. -/
def check : Option String → Conn HsError Unit
  | some err => fail (.error (.io err))
  | none => pure ()

/-- The numerics `001` to `005` that `ircAccept` greets the client with. -/
def welcome (info : HubInfo) (p : IrcPeer) : List Message :=
  let vers := info.softName ++ "-" ++ info.softVersion
  [⟨p.hostPref, "001",
      [p.name, "Welcome to the " ++ info.name ++ " Internet Relay Chat Network " ++ p.name]⟩,
    ⟨p.hostPref, "002", [p.name, "Your host is " ++ info.host ++ "[" ++ info.host ++ "/" ++
      info.port ++ "], running version " ++ vers]⟩,
    ⟨p.hostPref, "003",
      [p.name, "This server was created " ++ info.created ++ " at " ++ info.createdUTC ++ " UTC"]⟩,
    ⟨p.hostPref, "004", [p.name, info.host, vers, "DOQRSZaghilopswz",
      "CFILMPQSbcefgijklmnopqrstvz", "bkloveqjfI"]⟩,
    ⟨p.hostPref, "005", [p.name, "CHANTYPES=#", "EXCEPTS", "INVEX",
      "CHANMODES=eIbq,k,flj,CFLMPQScgimnprstz", "CHANLIMIT=#:120", "PREFIX=(ov)@+",
      "MAXLIST=bqeI:100", "MODES=4", "NETWORK=freenode", "STATUSMSG=@+", "CALLERID=g",
      "CASEMAPPING=rfc1459", "are supported by this server"]⟩]

/-- The `waitJoin` loop: answers `PING` with `PONG`, skips other commands, and
ends at `JOIN #hub`. -/
def waitJoin : Nat → Conn HsError Unit
  | 0 => fail .diverge
  | fuel + 1 => do
    match ← Conn.readMessage with
    | .error err => fail (.error (.io err))
    | .ok m =>
      if m.command = "PING" then
        match ← Conn.writeMessage { m with command := "PONG" } with
        | some err => fail (.error (.io err))
        | none => waitJoin fuel
      else if m.command = "JOIN" then
        if m.params.length ≠ 1 then fail (.error (.expectedChannel m))
        else if m.params.headD "" ≠ ircHubChan then
          fail (.error (.expectedHubChan (m.params.headD "")))
        else pure ()
      else waitJoin fuel

/-- `ircAccept`, up to `broadcastUserJoin`, whose writes go to other
connections. -/
def ircAccept (info : HubInfo) (p : IrcPeer) : Conn HsError Unit := do
  check (← writeAll (welcome info p))
  withReadFuel waitJoin
  check (← Conn.writeMessage ⟨p.ownPref, "JOIN", [ircHubChan]⟩)
  let roster ← Conn.peers
  check (← writeAll (p.peersJoin roster))
  let _ ← Conn.promote p
  pure ()

/-- `ircHandshake` for connection `me`: the NICK loop, a SID, and the accept,
after which a failure gives the name back. -/
def ircHandshake (info : HubInfo) (me : Nat) : Conn HsError IrcPeer := do
  let (name, user) ← nickPhase info me
  let sid ← Conn.nextSID
  let peer : IrcPeer := ⟨me, sid, name, user, info.host⟩
  onError (do ircAccept info peer; pure peer) fun err => do
    Conn.unbind name
    fail (.error err)

/-- `ircPeer.Close`: the first call marks the peer closed and leaves the hub;
later calls return at once. -/
def IrcPeer.close {ε : Type} (p : IrcPeer) : Conn ε Unit := fun w =>
  if w.closed then (.ok (), w) else Conn.leave p { w with closed := true }

/-- `k` calls of `Close`. -/
def IrcPeer.closeTimes {ε : Type} (p : IrcPeer) : Nat → Conn ε Unit
  | 0 => pure ()
  | k + 1 => do p.close; p.closeTimes k

end DcHub.Irc

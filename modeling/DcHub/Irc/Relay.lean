import DcHub.Irc.Message
import DcHub.Hub.Names

/-! # Relaying to an IRC peer

What `ircPeer` writes to its client when the hub relays presence and chat from
other peers: `PeersJoin`, `PeersLeave`, `ChatMsg` and `PrivateMsg`. The prefix
of each message names the peer it is about: an IRC peer's own prefix, or, for a
peer of another protocol, its name as nick and user and the hub's host. Nothing
is escaped on the way, so a CR LF in a chat text ends the line early and the
rest is read as a message of its own, and a space in a name splits the prefix.
When names are words without `!` or `@` and texts hold no line end, the client
reads back exactly the messages written.
-/

namespace DcHub.Irc

open DcHub.Hub

/-- `ircHubChan`. -/
def ircHubChan : String := "#hub"

/-- The fields of an `ircPeer` the hub reads: its identity (the Go pointer),
its SID, the name reserved in the handshake, the user of its `USER` command and
the hub's host. -/
structure IrcPeer where
  id : Nat
  sid : Nat
  name : String
  user : String
  host : String
  deriving DecidableEq

namespace IrcPeer

/-- `hostPref`, the hub's own prefix. -/
def hostPref (p : IrcPeer) : Prefix := ⟨p.host, "", ""⟩

/-- `ownPref`, the peer's `nick!user@host`. -/
def ownPref (p : IrcPeer) : Prefix := ⟨p.name, p.user, p.host⟩

end IrcPeer

/-- A peer as an `ircPeer` sees it: another IRC peer, or a peer of another
protocol known by its identity and name. -/
inductive Peer where
  | irc (q : IrcPeer)
  | other (id : Nat) (name : String)
  deriving DecidableEq

def Peer.id : Peer → Nat
  | .irc q => q.id
  | .other id _ => id

/-- `Name()`. -/
def Peer.name : Peer → String
  | .irc q => q.name
  | .other _ name => name

/-- A chat `Message`: the sender's name at send time and the text. -/
structure ChatMessage where
  name : String
  text : String

namespace IrcPeer

/-- The prefix `p` gives a message from `peer`: its own prefix if it is on IRC,
or `name` as nick and user with the hub's host. -/
def prefFor (p : IrcPeer) (peer : Peer) (name : String) : Prefix :=
  match peer with
  | .irc q => q.ownPref
  | .other .. => ⟨name, name, p.hostPref.name⟩

/-- `PeersJoin`: a `JOIN #hub` from each peer. -/
def peersJoin (p : IrcPeer) (peers : List Peer) : List Message :=
  peers.map fun peer => ⟨p.prefFor peer peer.name, "JOIN", [ircHubChan]⟩

/-- `PeersLeave`: a `PART #hub :disconnect` from each peer. -/
def peersLeave (p : IrcPeer) (peers : List Peer) : List Message :=
  peers.map fun peer => ⟨p.prefFor peer peer.name, "PART", [ircHubChan, "disconnect"]⟩

/-- `ChatMsg`: nothing for the peer's own message or a named room, else a
`PRIVMSG #hub` from the sender. -/
def chatMsg (p : IrcPeer) (room : String) (src : Peer) (msg : ChatMessage) : List Message :=
  if p.id = src.id then []
  else if room ≠ "" then []
  else [⟨p.prefFor src msg.name, "PRIVMSG", [ircHubChan, msg.text]⟩]

/-- `PrivateMsg`: a `PRIVMSG` to the peer's own name. -/
def privateMsg (p : IrcPeer) (src : Peer) (msg : ChatMessage) : List Message :=
  [⟨p.prefFor src msg.name, "PRIVMSG", [p.name, msg.text]⟩]

end IrcPeer

/-- One call of a relay method of an `ircPeer`. -/
inductive Relay where
  | peersJoin (peers : List Peer)
  | peersLeave (peers : List Peer)
  | chatMsg (room : String) (src : Peer) (msg : ChatMessage)
  | privateMsg (src : Peer) (msg : ChatMessage)

/-- The messages a call writes, in order. -/
def IrcPeer.messages (p : IrcPeer) : Relay → List Message
  | .peersJoin peers => p.peersJoin peers
  | .peersLeave peers => p.peersLeave peers
  | .chatMsg room src msg => p.chatMsg room src msg
  | .privateMsg src msg => p.privateMsg src msg

/-- The bytes a call writes when every write succeeds. -/
def IrcPeer.bytes (p : IrcPeer) (call : Relay) : List Char :=
  ((p.messages call).map writeMessage).flatten

/-- The name a relayed message is from: an IRC peer's own name, or the name the
call gives. -/
def senderName : Peer → String → String
  | .irc q, _ => q.name
  | .other .., name => name

/-- What a client should see of a call: for each message, the sender's name,
the command and the target. -/
def IrcPeer.expected (p : IrcPeer) : Relay → List (String × String × String)
  | .peersJoin peers => peers.map fun q => (q.name, "JOIN", ircHubChan)
  | .peersLeave peers => peers.map fun q => (q.name, "PART", ircHubChan)
  | .chatMsg room src msg =>
    if p.id = src.id ∨ room ≠ "" then [] else [(senderName src msg.name, "PRIVMSG", ircHubChan)]
  | .privateMsg src msg => [(senderName src msg.name, "PRIVMSG", p.name)]

/-- What a client sees of a message: the prefix nick, the command and the first
parameter. -/
def Message.summary (m : Message) : String × String × String :=
  (m.pref.name, m.command, m.params.headD "")

/-! ### Clean names and texts -/

/-- A name that can stand as a prefix nick: accepted by `validateUserName`, and
with no space, CR, LF, `!` or `@` in it. -/
def NickSafe (name : String) : Prop :=
  validateUserName name = .ok () ∧ Word name.data ∧ '!' ∉ name.data ∧ '@' ∉ name.data

/-- A sender whose prefix the client reads back: an IRC peer whose nick, user
and host are clean, or a name that is. -/
def SenderSafe : Peer → String → Prop
  | .irc q, _ => NickSafe q.name ∧ Word q.user.data ∧ '@' ∉ q.user.data ∧ Word q.host.data
  | .other .., name => NickSafe name

/-- A call whose inputs the client reads back: clean senders, texts with no
line end, and, for a private message, a recipient name that can stand as a
middle parameter. -/
def IrcPeer.Clean (p : IrcPeer) : Relay → Prop
  | .peersJoin peers | .peersLeave peers => ∀ q ∈ peers, SenderSafe q q.name
  | .chatMsg _ src msg => SenderSafe src msg.name ∧ NoBreak msg.text.data
  | .privateMsg src msg =>
    SenderSafe src msg.name ∧ NoBreak msg.text.data ∧ NickSafe p.name ∧ p.name.data.head? ≠ some ':'

theorem NickSafe.ne_nil {name : String} (h : NickSafe name) : name.data ≠ [] := by
  obtain ⟨c, cs, hc, -⟩ := (validateUserName_ok_iff name).mp h.1
  simp [hc]

theorem prefFor_readable {p : IrcPeer} {src : Peer} {name : String} (hh : Word p.host.data)
    (hs : SenderSafe src name) :
    (p.prefFor src name).Readable ∧ (p.prefFor src name).name = senderName src name := by
  cases src with
  | irc q =>
    obtain ⟨hn, hu, hua, hq⟩ := hs
    exact ⟨⟨hn.ne_nil, hn.2.1, hn.2.2.1, hn.2.2.2, hu, hua, hq⟩, rfl⟩
  | other id n =>
    exact ⟨⟨hs.ne_nil, hs.2.1, hs.2.2.1, hs.2.2.2, hs.2.1, hs.2.2.2, hh⟩, rfl⟩

theorem messages_readable {p : IrcPeer} {call : Relay} (hh : Word p.host.data) (hc : p.Clean call) :
    ∀ m ∈ p.messages call, m.Readable := by
  cases call with
  | peersJoin peers =>
    simp only [IrcPeer.messages, IrcPeer.peersJoin, List.mem_map]
    rintro _ ⟨q, hq, rfl⟩
    refine ⟨(prefFor_readable hh (hc q hq)).1, ?_, ?_, ?_, ?_, ?_⟩ <;> simp [Word, NoBreak, ircHubChan]
  | peersLeave peers =>
    simp only [IrcPeer.messages, IrcPeer.peersLeave, List.mem_map]
    rintro _ ⟨q, hq, rfl⟩
    refine ⟨(prefFor_readable hh (hc q hq)).1, ?_, ?_, ?_, ?_, ?_⟩ <;>
      simp [Word, NoBreak, Middle, ircHubChan]
  | chatMsg room src msg =>
    simp only [IrcPeer.messages, IrcPeer.chatMsg]
    split_ifs
    · simp
    · simp
    · simp only [List.mem_singleton, forall_eq]
      refine ⟨(prefFor_readable hh hc.1).1, ?_, ?_, ?_, ?_, by simpa using hc.2⟩ <;>
        simp [Word, NoBreak, Middle, ircHubChan]
  | privateMsg src msg =>
    simp only [IrcPeer.messages, IrcPeer.privateMsg, List.mem_singleton, forall_eq]
    obtain ⟨hs, ht, hn, hcol⟩ := hc
    refine ⟨(prefFor_readable hh hs).1, ?_, ?_, ?_, ?_, by simpa using ht⟩ <;> simp [Word, NoBreak]
    exact ⟨hn.ne_nil, hcol, hn.2.1⟩

theorem senderName_self (q : Peer) : senderName q q.name = q.name := by
  cases q <;> rfl

/-- A relay call with clean names and texts shows its client one message per
sender, each with the sender's name as nick and the call's command and target. -/
theorem readMessages_relay (p : IrcPeer) (call : Relay) (hh : Word p.host.data) (hc : p.Clean call) :
    (readMessages (p.bytes call)).map Message.summary = p.expected call := by
  rw [IrcPeer.bytes, readMessages_writeAll (messages_readable hh hc)]
  cases call with
  | peersJoin peers =>
    simp only [IrcPeer.messages, IrcPeer.peersJoin, IrcPeer.expected, List.map_map]
    refine List.map_congr_left fun q hq => ?_
    simp [Message.summary, (prefFor_readable hh (hc q hq)).2, senderName_self]
  | peersLeave peers =>
    simp only [IrcPeer.messages, IrcPeer.peersLeave, IrcPeer.expected, List.map_map]
    refine List.map_congr_left fun q hq => ?_
    simp [Message.summary, (prefFor_readable hh (hc q hq)).2, senderName_self]
  | chatMsg room src msg =>
    simp only [IrcPeer.messages, IrcPeer.chatMsg, IrcPeer.expected]
    by_cases hid : p.id = src.id
    · simp [hid]
    · by_cases hr : room ≠ ""
      · simp [hid, hr]
      · simp [hid, hr, Message.summary, (prefFor_readable hh hc.1).2]
  | privateMsg src msg =>
    simp [IrcPeer.messages, IrcPeer.privateMsg, IrcPeer.expected, Message.summary,
      (prefFor_readable hh hc.1).2]

theorem readMessages_relay_hi :
    Word "hub".data ∧
      IrcPeer.Clean ⟨1, 1, "alice", "alice", "hub"⟩ (.chatMsg "" (.other 2 "bob") ⟨"bob", "hi"⟩) ∧
    (readMessages (IrcPeer.bytes ⟨1, 1, "alice", "alice", "hub"⟩
      (.chatMsg "" (.other 2 "bob") ⟨"bob", "hi"⟩))).map Message.summary =
      IrcPeer.expected ⟨1, 1, "alice", "alice", "hub"⟩ (.chatMsg "" (.other 2 "bob") ⟨"bob", "hi"⟩) :=
  have hh : Word "hub".data := by unfold Word NoBreak; decide
  have hc : IrcPeer.Clean ⟨1, 1, "alice", "alice", "hub"⟩ (.chatMsg "" (.other 2 "bob") ⟨"bob", "hi"⟩) :=
    ⟨⟨rfl, by unfold Word NoBreak; decide, by decide, by decide⟩, by unfold NoBreak; decide⟩
  ⟨hh, hc, readMessages_relay _ _ hh hc⟩

/-! ### Line injection -/

/-- A chat text that holds CR LF followed by the line of any readable message
`m'`: the client reads `m'` as a message of its own, after at most one other,
whatever prefix, command and target `m'` carries. The sender may be as clean
as validation allows. -/
theorem readMessages_chatMsg_injects (p : IrcPeer) (src : Peer) (msg : ChatMessage)
    (t : List Char) (m' : Message) (hh : Word p.host.data) (hs : SenderSafe src msg.name)
    (hid : p.id ≠ src.id) (ht : NoBreak t) (hm : m'.Readable)
    (htext : msg.text.data = t ++ '\r' :: '\n' :: m'.toLine) :
    ∃ l, l.length ≤ 1 ∧ readMessages (p.bytes (.chatMsg "" src msg)) = l ++ [m'] := by
  have hp := (prefFor_readable hh hs).1
  have hn : (p.prefFor src msg.name).name ≠ "" := fun h => hp.name_ne (by simp [h])
  -- the one line the call writes, up to the text
  set body : List Char := "PRIVMSG".data ++ ' ' :: ircHubChan.data ++
    (if needsColon msg.text.data then [' ', ':'] else [' '])
  set head : List Char := ':' :: ((p.prefFor src msg.name).write ++ ' ' :: body)
  have hhead : NoBreak head := by
    have hbody : NoBreak body := by simp only [body, ircHubChan, NoBreak]; split <;> decide
    simp only [head, noBreak_cons, noBreak_append]
    exact ⟨by decide, noBreak_write hp, by decide, hbody⟩
  have hbytes : p.bytes (.chatMsg "" src msg) = (head ++ t ++ ['\r']) ++ '\n' :: writeMessage m' := by
    have hM : p.bytes (.chatMsg "" src msg) =
        writeMessage ⟨p.prefFor src msg.name, "PRIVMSG", [ircHubChan, msg.text]⟩ := by
      simp [IrcPeer.bytes, IrcPeer.messages, IrcPeer.chatMsg, hid]
    rw [hM, writeMessage, @toLine_eq ⟨p.prefFor src msg.name, "PRIVMSG", [ircHubChan, msg.text]⟩ hn]
    simp [paramsPart, head, body, htext, writeMessage]
  have hlf : '\n' ∉ head ++ t ++ ['\r'] := by
    simpa using ⟨fun h => (hhead _ h).2 rfl, fun h => (ht _ h).2 rfl⟩
  refine ⟨(parseMessage (head ++ t ++ ['\r'])).toList, ?_, ?_⟩
  · cases parseMessage (head ++ t ++ ['\r']) <;> simp
  · rw [hbytes, readMessages_line hlf, ← List.append_nil (writeMessage m'),
      readMessages_writeMessage hm]
    rfl

theorem readMessages_chatMsg_injects_spoof :
    Word "hub".data ∧ SenderSafe (.other 2 "bob") "bob" ∧ (1 : Nat) ≠ 2 ∧ NoBreak "hi".data ∧
      Message.Readable ⟨⟨"spoof", "spoof", "h"⟩, "PRIVMSG", ["#hub", "x"]⟩ ∧
      "hi\r\n:spoof!spoof@h PRIVMSG #hub x".data =
        "hi".data ++ '\r' :: '\n' :: Message.toLine ⟨⟨"spoof", "spoof", "h"⟩, "PRIVMSG", ["#hub", "x"]⟩ ∧
      ∃ l, l.length ≤ 1 ∧ readMessages (IrcPeer.bytes ⟨1, 1, "alice", "alice", "hub"⟩
        (.chatMsg "" (.other 2 "bob") ⟨"bob", "hi\r\n:spoof!spoof@h PRIVMSG #hub x"⟩)) =
          l ++ [⟨⟨"spoof", "spoof", "h"⟩, "PRIVMSG", ["#hub", "x"]⟩] :=
  have hh : Word "hub".data := by unfold Word NoBreak; decide
  have hs : SenderSafe (.other 2 "bob") "bob" := ⟨rfl, by unfold Word NoBreak; decide, by decide, by decide⟩
  have ht : NoBreak "hi".data := by unfold NoBreak; decide
  have hm : Message.Readable ⟨⟨"spoof", "spoof", "h"⟩, "PRIVMSG", ["#hub", "x"]⟩ :=
    ⟨⟨by decide, by unfold Word NoBreak; decide, by decide, by decide, by unfold Word NoBreak; decide,
      by decide, by unfold Word NoBreak; decide⟩, by decide, by unfold Word NoBreak; decide, by decide,
      by simp [Middle, Word, NoBreak], by simp [NoBreak]⟩
  have htext : "hi\r\n:spoof!spoof@h PRIVMSG #hub x".data =
      "hi".data ++ '\r' :: '\n' :: Message.toLine ⟨⟨"spoof", "spoof", "h"⟩, "PRIVMSG", ["#hub", "x"]⟩ := by
    decide
  ⟨hh, hs, by decide, ht, hm, htext,
    readMessages_chatMsg_injects ⟨1, 1, "alice", "alice", "hub"⟩ (.other 2 "bob")
      ⟨"bob", "hi\r\n:spoof!spoof@h PRIVMSG #hub x"⟩ _ _ hh hs (by decide) ht hm htext⟩

end DcHub.Irc

import Mathlib.Data.List.DropRight
import Mathlib.Data.List.Infix

/-! # IRC messages on the wire

The IRC library the hub uses, modelled from its behaviour, since it is not among
the sources: `irc.Message` with its prefix, command and parameters; the writer,
which puts a message on one line ended by CR LF, marking the last parameter with
`:` when it is empty, holds a space or starts with `:`; and the reader, which
takes a line up to LF, trims CR and LF off its end, and splits it as RFC 1459
does. The hub never sets message tags, so they are left out; the reader skips a
tag section it meets. A string is worked on through its characters.
-/

namespace DcHub.Irc

/-- `irc.Prefix`: `nick!user@host`, or a server name alone. -/
structure Prefix where
  name : String
  user : String
  host : String
  deriving DecidableEq, Repr

/-- `irc.Message`. The hub always gives a prefix; one with an empty name is not
written. -/
structure Message where
  pref : Prefix
  command : String
  params : List String
  deriving DecidableEq, Repr

/-! ### The writer -/

/-- `Prefix.writeTo`. -/
def Prefix.write (p : Prefix) : List Char :=
  p.name.data ++ (if p.user = "" then [] else '!' :: p.user.data) ++
    (if p.host = "" then [] else '@' :: p.host.data)

/-- Whether the writer marks a last parameter with `:`. -/
def needsColon (t : List Char) : Bool := t = [] ∨ ' ' ∈ t ∨ t.head? = some ':'

/-- `Message.String`. -/
def Message.toLine (m : Message) : List Char :=
  (if m.pref.name = "" then [] else ':' :: m.pref.write ++ [' ']) ++ m.command.data ++
    match m.params.getLast? with
    | none => []
    | some t =>
      (if m.params.dropLast = [] then []
        else ' ' :: [' '].intercalate (m.params.dropLast.map String.data)) ++
      (if needsColon t.data then [' ', ':'] else [' ']) ++ t.data

/-- `Writer.WriteMessage`: the line and CR LF. -/
def writeMessage (m : Message) : List Char := m.toLine ++ ['\r', '\n']

/-! ### The reader -/

/-- `strings.SplitN(s, sep, 2)` for a non-empty `sep`: the text before its first
occurrence and the text after it, or nothing when it does not occur. -/
def splitOnce (sep : List Char) : List Char → Option (List Char × List Char)
  | [] => none
  | c :: cs =>
    if sep.isPrefixOf (c :: cs) then some ([], (c :: cs).drop sep.length)
    else (splitOnce sep cs).map fun r => (c :: r.1, r.2)

/-- `ParsePrefix`: the host after the first `@`, then the user after the first `!`. -/
def parsePrefix (l : List Char) : Prefix :=
  let (nu, host) := (splitOnce ['@'] l).getD (l, [])
  let (name, user) := (splitOnce ['!'] nu).getD (nu, [])
  ⟨⟨name⟩, ⟨user⟩, ⟨host⟩⟩

/-- `strings.FieldsFunc(s, func(r rune) bool { return r == ' ' })`. -/
def fields (l : List Char) : List (List Char) := (l.splitOn ' ').filter (· ≠ [])

/-- A carriage return or a line feed, the characters `TrimRight` takes off. -/
def isCrLf (c : Char) : Bool := c = '\r' || c = '\n'

/-- `ParseMessage`; a line it rejects, or one it would index past its end,
gives no message. -/
def parseMessage (raw : List Char) : Option Message := do
  let line := raw.rdropWhile isCrLf
  let line ← if line.head? = some '@' then (splitOnce [' '] line).map Prod.snd else some line
  let (pre, line) ← if line.head? = some ':' then
      (splitOnce [' '] line).map fun r => (parsePrefix r.1.tail, r.2)
    else if line = [] then none else some (⟨"", "", ""⟩, line)
  let (front, trailing) := match splitOnce [' ', ':'] line with
    | some r => (r.1, [r.2])
    | none => (line, [])
  match fields front with
  | [] => none
  | cmd :: params => some ⟨pre, ⟨cmd.map Char.toUpper⟩, (params ++ trailing).map String.mk⟩

/-- What a client reads from bytes sent to it: each line up to LF, parsed; a
last line with no LF has not arrived. -/
def readMessages (bytes : List Char) : List Message :=
  ((bytes.splitOn '\n').dropLast).filterMap parseMessage


/-! ### What the reader takes back -/

/-- No character that ends a line. -/
def NoBreak (l : List Char) : Prop := ∀ c ∈ l, c ≠ '\r' ∧ c ≠ '\n'

/-- A word of a line: no space and nothing that ends the line. -/
def Word (l : List Char) : Prop := ' ' ∉ l ∧ NoBreak l

/-- A prefix the reader takes back as written. -/
structure Prefix.Readable (p : Prefix) : Prop where
  name_ne : p.name.data ≠ []
  name : Word p.name.data
  name_bang : '!' ∉ p.name.data
  name_at : '@' ∉ p.name.data
  user : Word p.user.data
  user_at : '@' ∉ p.user.data
  host : Word p.host.data

/-- A middle parameter: a non-empty word not starting with `:`. -/
def Middle (a : List Char) : Prop := a ≠ [] ∧ a.head? ≠ some ':' ∧ Word a

/-- A message the reader takes back as written. -/
structure Message.Readable (m : Message) : Prop where
  pref : m.pref.Readable
  command_ne : m.command.data ≠ []
  command : Word m.command.data
  upper : m.command.data.map Char.toUpper = m.command.data
  middle : ∀ a ∈ m.params.dropLast, Middle a.data
  trailing : ∀ t ∈ m.params.getLast?, NoBreak t.data

@[simp] theorem noBreak_nil : NoBreak [] := by simp [NoBreak]

@[simp] theorem noBreak_append {a b : List Char} : NoBreak (a ++ b) ↔ NoBreak a ∧ NoBreak b := by
  simp only [NoBreak, List.forall_mem_append]

@[simp] theorem noBreak_cons {c : Char} {l : List Char} :
    NoBreak (c :: l) ↔ (c ≠ '\r' ∧ c ≠ '\n') ∧ NoBreak l := by
  simp [NoBreak]

theorem splitOnce_single {x : Char} {a : List Char} (b : List Char) (ha : x ∉ a) :
    splitOnce [x] (a ++ x :: b) = some (a, b) := by
  induction a with
  | nil => simp [splitOnce, List.isPrefixOf]
  | cons c a ih =>
    have hc : c ≠ x := fun h => ha (h ▸ List.mem_cons_self c a)
    simp [splitOnce, List.isPrefixOf, hc.symm, ih (fun h => ha (List.mem_cons_of_mem c h))]

theorem splitOnce_single_none {x : Char} {a : List Char} (ha : x ∉ a) : splitOnce [x] a = none := by
  induction a with
  | nil => rfl
  | cons c a ih =>
    have hc : c ≠ x := fun h => ha (h ▸ List.mem_cons_self c a)
    simp [splitOnce, List.isPrefixOf, hc.symm, ih (fun h => ha (List.mem_cons_of_mem c h))]

/-- A run of characters with no space moves no `" :"` match. -/
theorem splitOnce_colon_append {a : List Char} (r : List Char) (ha : ' ' ∉ a) :
    splitOnce [' ', ':'] (a ++ r) = (splitOnce [' ', ':'] r).map fun p => (a ++ p.1, p.2) := by
  induction a with
  | nil => simp
  | cons c a ih =>
    have hc : c ≠ ' ' := fun h => ha (h ▸ List.mem_cons_self c a)
    simp [splitOnce, List.isPrefixOf, hc.symm, ih (fun h => ha (List.mem_cons_of_mem c h)),
      Option.map_map, Function.comp_def]

theorem splitOnce_colon_space {a : List Char} (r : List Char) (ha : a.head? ≠ some ':') (hne : a ≠ []) :
    splitOnce [' ', ':'] (' ' :: (a ++ r)) =
      (splitOnce [' ', ':'] (a ++ r)).map fun p => (' ' :: p.1, p.2) := by
  obtain ⟨d, a, rfl⟩ := List.exists_cons_of_ne_nil hne
  have hd : d ≠ ':' := by simpa using ha
  simp [splitOnce, List.isPrefixOf, hd, Ne.symm hd]

theorem parsePrefix_write {p : Prefix} (hp : p.Readable) : parsePrefix p.write = p := by
  obtain ⟨⟨name⟩, ⟨user⟩, ⟨host⟩⟩ := p
  have hna : '@' ∉ name := hp.name_at
  have hnb : '!' ∉ name := hp.name_bang
  have hua : '@' ∉ user := hp.user_at
  have hU : splitOnce ['!'] (name ++ if (⟨user⟩ : String) = "" then [] else '!' :: user) =
      if (⟨user⟩ : String) = "" then none else some (name, user) := by
    split_ifs
    · simpa using splitOnce_single_none hnb
    · exact splitOnce_single user hnb
  have hUa : '@' ∉ name ++ if (⟨user⟩ : String) = "" then [] else '!' :: user := by
    split_ifs <;> simp [hna, hua]
  simp only [parsePrefix, Prefix.write]
  by_cases hh : (⟨host⟩ : String) = ""
  · simp only [hh, if_true, List.append_nil, splitOnce_single_none hUa, Option.getD_none, hU]
    split_ifs with hu <;> simp_all
  · simp only [hh, if_false, splitOnce_single host hUa, Option.getD_some, hU]
    split_ifs with hu <;> simp_all

theorem not_beq_of_not_mem {l : List Char} {c : Char} (h : c ∉ l) : ∀ x ∈ l, ¬ (x == c) = true := by
  intro x hx hb
  rw [beq_iff_eq] at hb
  exact h (hb ▸ hx)

theorem fields_words {w : List Char} {ws : List (List Char)} (hw : w ≠ [] ∧ ' ' ∉ w)
    (hws : ∀ a ∈ ws, a ≠ [] ∧ ' ' ∉ a) :
    fields (w ++ (ws.map fun a => ' ' :: a).flatten) = w :: ws := by
  induction ws generalizing w with
  | nil =>
    simp only [fields, List.map_nil, List.flatten_nil, List.append_nil, List.splitOn]
    rw [List.splitOnP_eq_single _ _ (not_beq_of_not_mem hw.2)]
    simp [hw.1]
  | cons a ws ih =>
    have ha := hws a (List.mem_cons_self a ws)
    simp only [fields, List.map_cons, List.flatten_cons, List.splitOn] at ih ⊢
    rw [List.cons_append, List.splitOnP_first _ _ (not_beq_of_not_mem hw.2) ' '
      (by simp), List.filter_cons_of_pos (by simpa using hw.1),
      ih ha (fun b hb => hws b (List.mem_cons_of_mem a hb))]

/-- No `" :"` starts inside the command and middle parameters. -/
theorem splitOnce_colon_words {w : List Char} {ws : List (List Char)} (r : List Char) (hw : ' ' ∉ w)
    (hws : ∀ a ∈ ws, Middle a) :
    splitOnce [' ', ':'] (w ++ ((ws.map fun a => ' ' :: a).flatten ++ r)) =
      (splitOnce [' ', ':'] r).map fun p => (w ++ ((ws.map fun a => ' ' :: a).flatten ++ p.1), p.2) := by
  induction ws generalizing w with
  | nil => simpa using splitOnce_colon_append r hw
  | cons a ws ih =>
    obtain ⟨hne, hh, ha, -⟩ := hws a (List.mem_cons_self a ws)
    simp only [List.map_cons, List.flatten_cons, List.append_assoc, List.cons_append]
    rw [splitOnce_colon_append _ hw, splitOnce_colon_space _ hh hne,
      ih ha (fun b hb => hws b (List.mem_cons_of_mem a hb))]
    simp [Option.map_map, Function.comp_def]

/-- `" " + strings.Join(args, " ")` is a space before each argument. -/
theorem join_eq_flatten (L : List (List Char)) :
    (if L = [] then [] else ' ' :: [' '].intercalate L) = (L.map (' ' :: ·)).flatten := by
  induction L with
  | nil => rfl
  | cons a L ih =>
    cases L with
    | nil => simp [List.intercalate]
    | cons b L =>
      simp only [reduceCtorEq, if_false] at ih ⊢
      simp [List.intercalate, List.intersperse_cons_cons] at ih ⊢
      rw [← ih]

/-- The part of a line after the command: the middle parameters, then the last
one, marked or not. -/
def paramsPart (params : List String) : List Char :=
  match params.getLast? with
  | none => []
  | some t =>
    ((params.dropLast.map String.data).map (' ' :: ·)).flatten ++
      (if needsColon t.data then [' ', ':'] else [' ']) ++ t.data

theorem noBreak_write {p : Prefix} (hp : p.Readable) : NoBreak p.write := by
  simp only [Prefix.write, noBreak_append]
  refine ⟨⟨hp.name.2, ?_⟩, ?_⟩ <;> split <;> simp [hp.user.2, hp.host.2]

theorem noBreak_paramsPart {m : Message} (hm : m.Readable) : NoBreak (paramsPart m.params) := by
  unfold paramsPart
  split
  · exact noBreak_nil
  · rename_i t ht
    simp only [noBreak_append]
    refine ⟨⟨?_, by split <;> simp⟩, hm.trailing t ht⟩
    simp only [NoBreak, List.mem_flatten, List.mem_map]
    rintro c ⟨_, ⟨a, ⟨s, hs, rfl⟩, rfl⟩, hc⟩
    rcases List.mem_cons.mp hc with rfl | hc
    · decide
    · exact (hm.middle s hs).2.2.2 c hc

theorem toLine_eq {m : Message} (hn : m.pref.name ≠ "") :
    m.toLine = (':' :: m.pref.write) ++ ' ' :: (m.command.data ++ paramsPart m.params) := by
  have hj := join_eq_flatten (m.params.dropLast.map String.data)
  simp only [List.map_eq_nil_iff] at hj
  simp only [Message.toLine, hn, if_false, paramsPart, hj]
  cases m.params.getLast? <;> simp

theorem parseMessage_toLine {m : Message} (hm : m.Readable) :
    parseMessage (m.toLine ++ ['\r']) = some m := by
  have hn : m.pref.name ≠ "" := fun h => hm.pref.name_ne (by simp [h])
  have hbr : NoBreak m.toLine := by
    rw [toLine_eq hn]
    simp [noBreak_write hm.pref, hm.command.2, noBreak_paramsPart hm]
  have hdrop : (m.toLine ++ ['\r']).rdropWhile isCrLf = m.toLine := by
    rw [List.rdropWhile_concat_pos _ _ _ (by decide), List.rdropWhile_eq_self_iff]
    intro hne h
    have := hbr _ (List.getLast_mem hne)
    simp only [isCrLf, Bool.or_eq_true, decide_eq_true_eq] at h
    tauto
  have hsp : ' ' ∉ ':' :: m.pref.write := by
    have hp := hm.pref
    simp only [Prefix.write, List.mem_cons, List.mem_append, not_or]
    refine ⟨by decide, ⟨hp.name.1, ?_⟩, ?_⟩ <;> split <;> simp [hp.user.1, hp.host.1]
  simp only [parseMessage, hdrop]
  rw [toLine_eq hn]
  simp
  rw [← List.cons_append, splitOnce_single _ hsp]
  simp only [Option.map_some', Option.some_bind, List.tail_cons, parsePrefix_write hm.pref]
  obtain ⟨pref, ⟨cmd⟩, params⟩ := m
  dsimp only at hm ⊢
  have hw : cmd ≠ [] ∧ ' ' ∉ cmd := ⟨hm.command_ne, hm.command.1⟩
  have hup : cmd.map Char.toUpper = cmd := hm.upper
  rcases List.eq_nil_or_concat params with rfl | ⟨args, t, rfl⟩
  · -- no parameters: the command ends the line
    have h0 : splitOnce [' ', ':'] cmd = none := by simpa using splitOnce_colon_append [] hw.2
    have hf : fields cmd = [cmd] := by simpa using @fields_words cmd [] hw (by simp)
    simp [paramsPart, h0, hf, hup]
  · rw [List.concat_eq_append] at hm ⊢
    have hargs : ∀ a ∈ args.map String.data, Middle a := by simpa using hm.middle
    have ht : NoBreak t.data := hm.trailing t (by simp)
    have hpp : paramsPart (args ++ [t]) = ((args.map String.data).map (' ' :: ·)).flatten ++
        (if needsColon t.data then [' ', ':'] else [' ']) ++ t.data := by simp [paramsPart]
    rw [hpp]
    by_cases hc : needsColon t.data
    · -- the last parameter goes after " :"
      simp only [if_pos hc, List.append_assoc, List.cons_append, List.nil_append]
      have h1 : splitOnce [' ', ':'] (' ' :: ':' :: t.data) = some ([], t.data) := by
        simp [splitOnce, List.isPrefixOf]
      rw [splitOnce_colon_words _ hw.2 hargs, h1, Option.map_some', List.append_nil,
        fields_words hw (fun a ha => ⟨(hargs a ha).1, (hargs a ha).2.2.1⟩)]
      simp [hup, show String.mk ∘ String.data = id from rfl]
    · -- the last parameter is a plain word
      have htm : Middle t.data := by
        simp only [needsColon, Bool.not_eq_true, decide_eq_false_iff_not, not_or] at hc
        exact ⟨hc.1, hc.2.2, hc.2.1, ht⟩
      have hall : ∀ a ∈ (args ++ [t]).map String.data, Middle a := by
        simpa [or_imp, forall_and] using ⟨fun a ha => hargs a.data (List.mem_map_of_mem _ ha), htm⟩
      have hline : ((args.map String.data).map (' ' :: ·)).flatten ++ [' '] ++ t.data =
          (((args ++ [t]).map String.data).map (' ' :: ·)).flatten := by simp
      rw [if_neg hc, hline]
      have h0 := splitOnce_colon_words [] hw.2 hall
      simp only [List.append_nil] at h0
      rw [h0, show splitOnce [' ', ':'] [] = none from rfl, Option.map_none',
        fields_words hw (fun a ha => ⟨(hall a ha).1, (hall a ha).2.2.1⟩)]
      simp [hup, show String.mk ∘ String.data = id from rfl]

/-- A client reads a line up to its LF as one message, if the line parses. -/
theorem readMessages_line {l : List Char} (hl : '\n' ∉ l) (rest : List Char) :
    readMessages (l ++ '\n' :: rest) = (parseMessage l).toList ++ readMessages rest := by
  have hsplit : (l ++ '\n' :: rest).splitOn '\n' = l :: rest.splitOn '\n' :=
    List.splitOnP_first _ _ (not_beq_of_not_mem hl) _ (by simp) _
  have hne : rest.splitOn '\n' ≠ [] := List.splitOnP_ne_nil _ _
  rw [readMessages, hsplit, List.dropLast_cons_of_ne_nil hne, List.filterMap_cons]
  cases parseMessage l <;> rfl

theorem readMessages_writeMessage {m : Message} (hm : m.Readable) (rest : List Char) :
    readMessages (writeMessage m ++ rest) = m :: readMessages rest := by
  have hn : m.pref.name ≠ "" := fun h => hm.pref.name_ne (by simp [h])
  have hbr : NoBreak m.toLine := by
    rw [toLine_eq hn]
    simp [noBreak_write hm.pref, hm.command.2, noBreak_paramsPart hm]
  have hlf : '\n' ∉ m.toLine ++ ['\r'] := by
    simpa using fun h => (hbr _ h).2 rfl
  rw [show writeMessage m ++ rest = (m.toLine ++ ['\r']) ++ '\n' :: rest by simp [writeMessage],
    readMessages_line hlf, parseMessage_toLine hm]
  rfl

/-- A client reads back, in order, every message of a sequence the writer
writes, when each is readable. -/
theorem readMessages_writeAll {ms : List Message} (hms : ∀ m ∈ ms, m.Readable) :
    readMessages (ms.map writeMessage).flatten = ms := by
  induction ms with
  | nil => rfl
  | cons m ms ih =>
    rw [List.map_cons, List.flatten_cons,
      readMessages_writeMessage (hms m (List.mem_cons_self m ms)),
      ih (fun m' h => hms m' (List.mem_cons_of_mem m h))]

end DcHub.Irc

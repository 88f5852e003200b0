import Mathlib.Data.List.AList
import Mathlib.Data.List.DropRight

/-! # User names and the user database

`Hub.validateUserName`, the check every protocol's handshake applies to a
requested nickname, and the hub's user registration over the in-memory
`memUsersDB`. A Go string is modelled by its characters: on valid UTF-8 a byte
prefix is a character prefix, and `strings.TrimSpace` decodes runes, so both
read the same on characters.
-/

namespace DcHub.Hub

/-- Go's `unicode.IsSpace`: the Latin-1 spaces and Unicode's `White_Space`. -/
def isSpace (c : Char) : Bool :=
  c = '\t' || c = '\n' || c.toNat = 0x0b || c.toNat = 0x0c || c = '\r' || c = ' ' ||
    c.toNat = 0x85 || c.toNat = 0xa0 || c.toNat = 0x1680 ||
    (0x2000 ≤ c.toNat && c.toNat ≤ 0x200a) || c.toNat = 0x2028 || c.toNat = 0x2029 ||
    c.toNat = 0x202f || c.toNat = 0x205f || c.toNat = 0x3000

/-- `strings.TrimSpace`: `TrimRightFunc(TrimLeftFunc(s, IsSpace), IsSpace)`. -/
def trimSpace (s : String) : String := ⟨(s.data.dropWhile isSpace).rdropWhile isSpace⟩

/-- `strings.HasPrefix`. -/
def hasPrefix (s pre : String) : Bool := pre.data.isPrefixOf s.data

/-- `Hub.validateUserName`, with the source's error texts. -/
def validateUserName (name : String) : Except String Unit :=
  if name = "" then .error "name should be empty"
  else if hasPrefix name "#" then .error "name should not start with '#'"
  else if hasPrefix name "!" then .error "name should not start with '!'"
  else if name ≠ trimSpace name then .error "name should not start or end with spaces"
  else .ok ()

/-- The spec's nickname, as far as the check goes: non-empty, not starting with
`#` or `!`, and with no white space at either end. -/
def NameOk (name : String) : Prop :=
  ∃ c cs, name.data = c :: cs ∧ c ≠ '#' ∧ c ≠ '!' ∧ isSpace c = false ∧
    isSpace ((c :: cs).getLast (List.cons_ne_nil c cs)) = false

theorem trimSpace_eq_self_iff {c : Char} {cs : List Char} :
    trimSpace ⟨c :: cs⟩ = ⟨c :: cs⟩ ↔
      isSpace c = false ∧ isSpace ((c :: cs).getLast (List.cons_ne_nil c cs)) = false := by
  rw [String.ext_iff, trimSpace]
  cases hc : isSpace c
  · rw [List.dropWhile_cons_of_neg (by simp [hc]), List.rdropWhile_eq_self_iff]
    simp
  · -- a leading space is dropped, so the result is shorter
    rw [List.dropWhile_cons_of_pos hc]
    refine iff_of_false (fun h => ?_) (by simp)
    have h1 := congrArg List.length h
    have h2 := (List.rdropWhile_prefix isSpace (l := cs.dropWhile isSpace)).length_le
    have h3 := (List.dropWhile_suffix isSpace (l := cs)).length_le
    simp only [List.length_cons] at h1
    omega

/-- The check accepts exactly the nicknames the spec describes. -/
theorem validateUserName_ok_iff (name : String) : validateUserName name = .ok () ↔ NameOk name := by
  obtain ⟨l⟩ := name
  cases l with
  | nil => simp [validateUserName, NameOk]
  | cons c cs =>
    have hne : (⟨c :: cs⟩ : String) ≠ "" := by simp [String.ext_iff]
    have hpre : ∀ d : Char, hasPrefix ⟨c :: cs⟩ ⟨[d]⟩ = (d == c) := by
      intro d; simp [hasPrefix, List.isPrefixOf]
    simp only [validateUserName, if_neg hne, show "#" = ⟨['#']⟩ from rfl,
      show "!" = ⟨['!']⟩ from rfl, hpre, beq_iff_eq]
    split_ifs with ha hb ht
    · simp [NameOk, ← ha]
    · simp [NameOk, ← hb]
    · simp only [Except.error.injEq, reduceCtorEq, false_iff]
      rintro ⟨c', cs', hl, -, -, h1, h2⟩
      obtain ⟨rfl, rfl⟩ := List.cons_eq_cons.mp hl
      exact ht (trimSpace_eq_self_iff.mpr ⟨h1, h2⟩).symm
    · exact iff_of_true rfl
        ⟨c, cs, rfl, Ne.symm ha, Ne.symm hb, trimSpace_eq_self_iff.mp (not_not.mp ht).symm⟩

/-! ### Registration -/

/-- `ErrUserRegDisabled`. -/
def errUserRegDisabled : String := "user registration is disabled"

/-- `memUsersDB`: the in-memory user database, name to password. -/
structure MemUsersDB where
  users : AList (fun _ : String => String)

namespace MemUsersDB

def isRegistered (db : MemUsersDB) (name : String) : Bool := (db.users.lookup name).isSome

/-- A missing name reads as Go's zero value, the empty password. -/
def getUserPassword (db : MemUsersDB) (name : String) : String := (db.users.lookup name).getD ""

def registerUser (db : MemUsersDB) (name pass : String) : MemUsersDB := ⟨db.users.insert name pass⟩

end MemUsersDB

/-- `Hub.RegisterUser`: the new database, or the error when there is none. -/
def registerUser (userDB : Option MemUsersDB) (name pass : String) :
    Except String (Option MemUsersDB) :=
  match userDB with
  | none => .error errUserRegDisabled
  | some db => .ok (some (db.registerUser name pass))

/-- `Hub.IsRegistered`. -/
def isRegistered (userDB : Option MemUsersDB) (name : String) : Bool :=
  match userDB with
  | none => false
  | some db => db.isRegistered name

end DcHub.Hub

import VerAI.Lib.PropertyTree
import VerAI.Lib.Transition
import Mathlib.Data.Int.Notation
/-!
# The configuration — `Config` and its file

The values live in a property tree and in a json file. Every write changes
the tree and then writes the whole tree to the file; where `write_json`
throws, the tree keeps the value and the file has not got it. Agreement of
the two is agreement with what a restarted daemon reads (`Agrees`).

`root.get(key, defValue)` never throws `ptree_bad_path`, so the handler in
`GetString`, which would store the default, is not entered.
-/

namespace VerAI

namespace Config

/-- What the code uses of boost's property trees and their json files. -/
structure PTree (τ φ : Type) where
  /-- A new `ptree`. -/
  empty : τ
  /-- `get_optional<string>`. -/
  get : τ → String → Option String
  put : τ → String → String → τ
  /-- The text `write_json` makes, `none` where it throws for what the tree
  holds. -/
  writeJson : τ → Option φ
  readJson : φ → Option τ

/-- **What boost documents of them.** A tree that can be written is read
back, putting a value where it stands changes nothing, and putting another
one shows at its key. -/
structure PTree.Lawful {τ φ : Type} (P : PTree τ φ) : Prop where
  readJson_writeJson : ∀ {t f}, P.writeJson t = some f → P.readJson f = some t
  put_of_get : ∀ {t key v}, P.get t key = some v → P.put t key v = t
  get_put_ne : ∀ {t key v}, P.get t key ≠ some v → P.get (P.put t key v) key ≠ P.get t key

def defFolder : String := "/opt/VerAI"

def defConfigPath : String := defFolder ++ "/daemon.cfg"

/-- A running daemon's tree, and the file if there is one. -/
structure ConfigState (τ φ : Type) where
  root : τ
  disk : Option φ

/-- How a call ends. -/
inductive Outcome
  | text (s : String)
  | number (n : ℤ)
  | returned
  /-- `json_parser_error` out of `write_json`. -/
  | jsonParserError
  | badLexicalCast
  deriving DecidableEq

/-- The calls of the class. -/
inductive Call
  | getString (key defValue : String)
  | getInt (key : String) (defValue : ℤ)
  | writeString (key value : String) (written : Bool)
  | writeInt (key : String) (value : ℤ) (written : Bool)

/-- The digits of a number, at least one. -/
def parseDigits (digits : List Char) : Option ℕ :=
  if digits.isEmpty || !digits.all Char.isDigit then none
  else some (digits.foldl (fun n c => 10 * n + (c.toNat - '0'.toNat)) 0)

/-- `boost::lexical_cast<int>`. -/
def lexicalCastInt (s : String) : Option ℤ :=
  let inRange (n : ℤ) : Option ℤ := if -2147483648 ≤ n ∧ n ≤ 2147483647 then some n else none
  match s.toList with
  | '-' :: digits => (parseDigits digits).bind fun n => inRange (-n)
  | '+' :: digits => (parseDigits digits).bind fun n => inRange n
  | digits => (parseDigits digits).bind fun n => inRange n

section

variable {τ φ : Type} (P : PTree τ φ)

/-- `Config::Init`: the tree a daemon starts with. -/
def init (disk : Option φ) : Except String τ :=
  match disk with
  | some file =>
    match P.readJson file with
    | some root => .ok root
    | none => .error ("Can't parse config file : " ++ defConfigPath)
  | none => .ok P.empty

def getString (root : τ) (key defValue : String) : String := (P.get root key).getD defValue

def getInt (root : τ) (key : String) (defValue : ℤ) : Option ℤ :=
  lexicalCastInt (getString P root key (toString defValue))

/-- `Config::WriteString`; `written` says whether the file could be
written. -/
def writeString (c : ConfigState τ φ) (key value : String) (written : Bool) :
    ConfigState τ φ × Outcome :=
  let root := P.put c.root key value
  match if written then P.writeJson root else none with
  | some file => (⟨root, some file⟩, .returned)
  | none => (⟨root, c.disk⟩, .jsonParserError)

def writeInt (c : ConfigState τ φ) (key : String) (value : ℤ) (written : Bool) :
    ConfigState τ φ × Outcome :=
  writeString P c key (toString value) written

def call (c : ConfigState τ φ) : Call → ConfigState τ φ × Outcome
  | .getString key defValue => (c, .text (getString P c.root key defValue))
  | .getInt key defValue =>
    match getInt P c.root key defValue with
    | some n => (c, .number n)
    | none => (c, .badLexicalCast)
  | .writeString key value written => writeString P c key value written
  | .writeInt key value written => writeInt P c key value written

/-- A daemon started on any file it can read, or on none, and then any
sequence of calls. -/
def system : Transition.System (ConfigState τ φ) Call where
  init c := init P c.disk = .ok c.root
  step c a := some (call P c a).1

/-! ## Agreement -/

/-- **A restarted daemon reads every key as this one does.** -/
def Agrees (c : ConfigState τ φ) : Prop :=
  ∃ root, init P c.disk = .ok root ∧
    ∀ key defValue, getString P root key defValue = getString P c.root key defValue

/-- The call does not throw out of `write_json`, or every key still reads as
before. -/
def Unchanged (c : ConfigState τ φ) (a : Call) : Prop :=
  (call P c a).2 = .jsonParserError →
    ∀ key defValue,
      getString P (call P c a).1.root key defValue = getString P c.root key defValue

/-- The file takes the value, or the key has it already. -/
def Stored (c : ConfigState τ φ) (key value : String) (written : Bool) : Prop :=
  (written = true ∧ P.writeJson (P.put c.root key value) ≠ none) ∨
    P.get c.root key = some value

/-- Every write is stored. -/
def Saved (c : ConfigState τ φ) : Call → Prop
  | .getString _ _ => True
  | .getInt _ _ => True
  | .writeString key value written => Stored P c key value written
  | .writeInt key value written => Stored P c key (toString value) written

variable {P}

/-- One key reads the same under every default exactly where it reads the
same. -/
theorem get_eq_of_getString {root root' : τ} {key : String}
    (h : ∀ defValue, getString P root key defValue = getString P root' key defValue) :
    P.get root key = P.get root' key := by
  have htwo : ∀ {v : String}, (∀ d : String, d = v) → False := fun hv =>
    absurd ((hv "").trans (hv "x").symm) (by decide)
  unfold getString at h
  cases hroot : P.get root key with
  | none =>
    cases hroot' : P.get root' key with
    | none => rfl
    | some v' => exact (htwo fun d => by simpa [hroot, hroot'] using h d).elim
  | some v =>
    cases hroot' : P.get root' key with
    | none => exact (htwo fun d => by simpa [hroot, hroot'] using (h d).symm).elim
    | some v' => simpa [hroot, hroot'] using h ""

/-- **A write is written or refused.** Either the file has the new tree, or
the write throws and the file is what it was. -/
theorem writeString_cases (c : ConfigState τ φ) (key value : String) (written : Bool) :
    (written = true ∧ ∃ file, P.writeJson (P.put c.root key value) = some file ∧
      writeString P c key value written =
        (⟨P.put c.root key value, some file⟩, .returned)) ∨
    (¬ (written = true ∧ P.writeJson (P.put c.root key value) ≠ none) ∧
      writeString P c key value written =
        (⟨P.put c.root key value, c.disk⟩, .jsonParserError)) := by
  cases written with
  | false => exact .inr ⟨by simp, rfl⟩
  | true =>
    cases hw : P.writeJson (P.put c.root key value) with
    | none => exact .inr ⟨by simp, by simp [writeString, hw]⟩
    | some file => exact .inl ⟨rfl, file, rfl, by simp [writeString, hw]⟩

/-- The step of a write that is stored. -/
theorem Agrees.writeString (hP : P.Lawful) {c : ConfigState τ φ} {key value : String}
    {written : Bool} (h : Agrees P c) (hs : Stored P c key value written) :
    Agrees P (writeString P c key value written).1 := by
  rcases writeString_cases (P := P) c key value written with
    ⟨-, file, hfile, hw⟩ | ⟨hrefused, hw⟩
  · rw [hw]
    refine ⟨_, ?_, fun _ _ => rfl⟩
    simp only [init, hP.readJson_writeJson hfile]
  · rw [hw, hP.put_of_get (hs.resolve_left hrefused)]
    exact h

/-- A write that is not stored shows in this daemon and not in the next. -/
theorem not_agrees_writeString (hP : P.Lawful) {c : ConfigState τ φ} {key value : String}
    {written : Bool} (h : Agrees P c) (hs : ¬ Stored P c key value written) :
    (writeString P c key value written).2 = .jsonParserError ∧
      P.get (writeString P c key value written).1.root key ≠ P.get c.root key ∧
      ¬ Agrees P (writeString P c key value written).1 := by
  have hne : P.get c.root key ≠ some value := fun hget => hs (.inr hget)
  rcases writeString_cases (P := P) c key value written with
    ⟨hwritten, file, hfile, -⟩ | ⟨-, hw⟩
  · exact absurd (.inl ⟨hwritten, by simp [hfile]⟩) hs
  · rw [hw]
    refine ⟨rfl, hP.get_put_ne hne, ?_⟩
    rintro ⟨root', hinit', hget'⟩
    obtain ⟨root, hinit, hget⟩ := h
    obtain rfl : root = root' := Except.ok.inj (hinit.symm.trans hinit')
    have hold := get_eq_of_getString fun defValue => hget key defValue
    have hnew := get_eq_of_getString fun defValue => hget' key defValue
    exact hP.get_put_ne hne (hnew.symm.trans hold)

/-- What holds of every write that a sequence of calls can make holds of
every call, the reading ones leaving everything as it is. -/
theorem call_cases (c : ConfigState τ φ) (a : Call) :
    (Saved P c a ∧ (call P c a).1 = c ∧ (call P c a).2 ≠ .jsonParserError) ∨
    ∃ key value written, call P c a = writeString P c key value written ∧
      (Saved P c a ↔ Stored P c key value written) := by
  cases a with
  | getString key defValue => exact .inl ⟨trivial, rfl, by simp [call]⟩
  | getInt key defValue =>
    refine .inl ⟨trivial, ?_, ?_⟩
    · cases hn : getInt P c.root key defValue <;> simp [call, hn]
    · cases hn : getInt P c.root key defValue <;> simp [call, hn]
  | writeString key value written => exact .inr ⟨key, value, written, rfl, Iff.rfl⟩
  | writeInt key value written => exact .inr ⟨key, toString value, written, rfl, Iff.rfl⟩

/-- **A saved call keeps the agreement.** -/
theorem Agrees.step (hP : P.Lawful) {c : ConfigState τ φ} {a : Call} (h : Agrees P c)
    (hs : Saved P c a) : Agrees P (call P c a).1 := by
  rcases call_cases (P := P) c a with ⟨-, hc, -⟩ | ⟨key, value, written, hcall, hstored⟩
  · rwa [hc]
  · rw [hcall]
    exact h.writeString hP (hstored.mp hs)

/-- And memory and file agree along every run of saved calls. -/
theorem agrees_of_reachable (hP : P.Lawful) {c : ConfigState τ φ}
    (h : (system P).ReachableUnder (Saved P) c) : Agrees P c := by
  refine h.invariant (fun c hc => ⟨c.root, hc, fun _ _ => rfl⟩) fun c a c' hc hs hstep => ?_
  obtain rfl := Option.some.inj hstep
  exact hc.step hP hs

/-- A saved call that throws has not changed anything. -/
theorem unchanged_of_saved (hP : P.Lawful) {c : ConfigState τ φ} {a : Call} (hs : Saved P c a) :
    Unchanged P c a := by
  intro hthrows key' defValue
  rcases call_cases (P := P) c a with ⟨-, hc, -⟩ | ⟨key, value, written, hcall, hstored⟩
  · rw [hc]
  · rw [hcall] at hthrows ⊢
    rcases writeString_cases (P := P) c key value written with
      ⟨-, file, -, hw⟩ | ⟨hrefused, hw⟩
    · rw [hw] at hthrows
      cases hthrows
    · rw [hw, hP.put_of_get ((hstored.mp hs).resolve_left hrefused)]

/-- **When the configuration in memory and on disk agree.** Along the runs
in which every write that fails writes what the key has already, they agree
in every state and a write that throws changes no key. Any other failing
write throws with the value visible in this daemon alone. -/
theorem agrees_iff (hP : P.Lawful) :
    (∀ c, (system P).ReachableUnder (Saved P) c →
      Agrees P c ∧ ∀ a, Saved P c a → Unchanged P c a) ∧
    ∀ c a, (system P).ReachableUnder (Saved P) c → ¬ Saved P c a →
      ¬ Agrees P (call P c a).1 ∧ ¬ Unchanged P c a := by
  refine ⟨fun c hc => ⟨agrees_of_reachable hP hc, fun a ha => unchanged_of_saved hP ha⟩,
    fun c a hc ha => ?_⟩
  rcases call_cases (P := P) c a with ⟨hs, -⟩ | ⟨key, value, written, hcall, hstored⟩
  · exact absurd hs ha
  · obtain ⟨hthrows, hget, hagrees⟩ := not_agrees_writeString hP (agrees_of_reachable hP hc)
      fun hs => ha (hstored.mpr hs)
    rw [← hcall] at hthrows hget hagrees
    exact ⟨hagrees, fun hunchanged =>
      hget (get_eq_of_getString fun defValue => hunchanged hthrows key defValue)⟩

end

/-! ## Trees of texts -/

open PropertyTree

/-- The names a key is cut into at its dots. -/
def pieces (key : String) : List String := (key.toList.splitOn '.').map String.ofList

/-- The names a lookup goes down: nothing is looked up behind a last dot. -/
def walked (key : String) : List String :=
  if (pieces key).getLast? = some "" then (pieces key).dropLast else pieces key

/-- Trees of texts, a file being the tree that was written to it. What
stands at a key is overwritten; else the path is made, with the name behind
a last dot. Only a tree without a text beside children can be written. -/
def treeOfTexts : PTree Tree Tree where
  empty := .empty
  get t key := t.get (walked key)
  put t key v := if (t.get (walked key)).isSome then t.put (walked key) v else t.put (pieces key) v
  writeJson t := if t.data = "" ∧ t.plain = true then some t else none
  readJson file := some file

theorem pieces_eq_walked_append (key : String) : ∃ rest, pieces key = walked key ++ rest := by
  unfold walked
  split
  · rename_i hlast
    exact ⟨[""], (List.dropLast_append_getLast? "" hlast).symm⟩
  · exact ⟨[], (List.append_nil _).symm⟩

theorem treeOfTexts_lawful : treeOfTexts.Lawful where
  readJson_writeJson h := (Option.ite_none_right_eq_some.mp h).2.symm
  put_of_get {t key v} h := by
    have hget : t.get (walked key) = some v := h
    simp only [treeOfTexts, hget, Option.isSome_some, if_true]
    exact Tree.put_of_get hget
  get_put_ne {t key v} h := by
    change (if (t.get (walked key)).isSome then t.put (walked key) v
      else t.put (pieces key) v).get (walked key) ≠ t.get (walked key)
    cases hget : t.get (walked key) with
    | some w =>
      rw [Option.isSome_some, if_pos rfl, Tree.get_put]
      exact fun heq => h (hget.trans heq.symm)
    | none =>
      rw [Option.isSome_none, if_neg Bool.false_ne_true]
      obtain ⟨rest, hrest⟩ := pieces_eq_walked_append key
      refine Tree.get_ne_none_of_append rest ?_
      rw [← hrest, Tree.get_put]
      exact Option.some_ne_none v

/-- A daemon without a file. -/
def fresh : ConfigState Tree Tree := ⟨.empty, none⟩

/-- The key of the daemon's version is two names deep. -/
theorem walked_version : walked "daemon.version" = ["daemon", "version"] := by decide

theorem pieces_version : pieces "daemon.version" = ["daemon", "version"] := by decide

/-- The file with the one value `daemon.version`. -/
def versionFile : Tree := .node "" [("daemon", .node "" [("version", .node "1" [])])]

theorem put_version (c : ConfigState Tree Tree) (h : c.root = .empty) :
    treeOfTexts.put c.root "daemon.version" "1" = versionFile := by
  change (if (c.root.get (walked "daemon.version")).isSome then
    c.root.put (walked "daemon.version") "1"
    else c.root.put (pieces "daemon.version") "1") = versionFile
  rw [walked_version, pieces_version, h]
  rfl

theorem get_version : treeOfTexts.get versionFile "daemon.version" = some "1" := by
  change versionFile.get (walked "daemon.version") = some "1"
  rw [walked_version]
  rfl

/-- The version is written, and written again while the file cannot be. -/
theorem versionTwice_agrees : Agrees treeOfTexts ⟨versionFile, some versionFile⟩ ∧
    Unchanged treeOfTexts ⟨versionFile, some versionFile⟩
      (.writeString "daemon.version" "1" false) := by
  have hfirst : (system treeOfTexts).ReachableUnder (Saved treeOfTexts)
      ⟨versionFile, some versionFile⟩ := by
    refine .step (s := fresh) (a := .writeString "daemon.version" "1" true) (.init rfl) (.inl ?_) ?_
    · rw [put_version fresh rfl]
      exact ⟨rfl, Option.some_ne_none versionFile⟩
    · simp only [system, call, writeString, put_version fresh rfl]
      rfl
  have hsaved : Saved treeOfTexts ⟨versionFile, some versionFile⟩
      (.writeString "daemon.version" "1" false) := .inr get_version
  exact ⟨((agrees_iff treeOfTexts_lawful).1 _ hfirst).1,
    ((agrees_iff treeOfTexts_lawful).1 _ hfirst).2 _ hsaved⟩

/-- A version whose write throws is the version of this daemon and no
version of the next one. -/
theorem unsavedVersion_not_agrees :
    ∃ c, (system treeOfTexts).exec fresh [.writeString "daemon.version" "1" false] = some c ∧
      ¬ Agrees treeOfTexts c ∧
      ¬ Unchanged treeOfTexts fresh (.writeString "daemon.version" "1" false) := by
  have hcall : call treeOfTexts fresh (.writeString "daemon.version" "1" false) =
      (⟨versionFile, none⟩, .jsonParserError) := by
    simp only [call, writeString, put_version fresh rfl]
    rfl
  have hempty : getString treeOfTexts .empty "daemon.version" "" = "" := by
    change (Tree.empty.get (walked "daemon.version")).getD "" = ""
    rw [walked_version]
    rfl
  have hversion : getString treeOfTexts versionFile "daemon.version" "" = "1" := by
    rw [getString, get_version, Option.getD_some]
  have hdiffer : getString treeOfTexts .empty "daemon.version" "" ≠
      getString treeOfTexts versionFile "daemon.version" "" := by
    rw [hempty, hversion]
    decide
  refine ⟨⟨versionFile, none⟩, ?_, ?_, fun hunchanged => ?_⟩
  · simp only [Transition.System.exec_cons, system, hcall]
    rfl
  · rintro ⟨root, hinit, hget⟩
    obtain rfl := Except.ok.inj hinit
    exact hdiffer (hget "daemon.version" "")
  · have hsame := hunchanged (by rw [hcall]) "daemon.version" ""
    rw [hcall] at hsame
    exact hdiffer hsame.symm

end Config

end VerAI

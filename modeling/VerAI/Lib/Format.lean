import Mathlib.Data.Nat.ModEq
import Mathlib.Tactic.Ring
/-!
# Formats that are read from a stream

A reader takes a value from the front of a stream and leaves the rest. It is
exact for a way to write values if it succeeds on what was written, whatever
follows, and on nothing else: then no stream is read in two ways, and what is
accepted is well formed. Exact readers can be put one after another.

Numbers of a fixed width are written as bytes with the highest first.
-/

namespace Format

universe u v w x

variable {τ : Type u} {ε : Type v} {α : Type w} {β : Type x}

/-- What goes on after a step that may fail comes to an end where both do. -/
theorem bind_eq_ok {γ δ : Type w} {a : Except ε γ} {f : γ → Except ε δ} {b : δ} :
    (a >>= f) = .ok b ↔ ∃ c, a = .ok c ∧ f c = .ok b := by
  cases a with
  | ok c => exact ⟨fun h => ⟨c, rfl, h⟩, fun ⟨_, hc, h⟩ => Except.ok.inj hc ▸ h⟩
  | error e => exact ⟨nofun, fun ⟨_, hc, _⟩ => nomatch hc⟩

/-- A reader takes a value from the front of a stream, or fails. -/
abbrev Reader (τ : Type u) (ε : Type v) (α : Type w) := List τ → Except ε (α × List τ)

/-- One reader after another. -/
def Reader.andThen (r : Reader τ ε α) (f : α → Reader τ ε β) : Reader τ ε β := fun s =>
  match r s with
  | .ok (a, rest) => f a rest
  | .error e => .error e

/-- **What is read is what was written**, and nothing else is accepted. -/
def Exact (r : Reader τ ε α) (write : α → List τ) (Valid : α → Prop) : Prop :=
  ∀ s a rest, r s = .ok (a, rest) ↔ Valid a ∧ s = write a ++ rest

section Exact

variable {r : Reader τ ε α} {f : α → Reader τ ε β} {write : α → List τ}
  {write' : α → β → List τ} {Valid : α → Prop} {Valid' : α → β → Prop} {g : β → α}

/-- The same format said in other words. -/
theorem Exact.congr (h : Exact r write Valid) {write₁ : α → List τ} {Valid₁ : α → Prop}
    (hvalid : ∀ a, Valid a ↔ Valid₁ a) (hwrite : ∀ a, Valid₁ a → write a = write₁ a) :
    Exact r write₁ Valid₁ := by
  intro s a rest
  rw [h s a rest, hvalid a]
  exact and_congr_right fun ha => by rw [hwrite a ha]

/-- What a reader and the next one do. -/
theorem andThen_eq_ok {s rest : List τ} {b : β} : r.andThen f s = .ok (b, rest) ↔
    ∃ a mid, r s = .ok (a, mid) ∧ f a mid = .ok (b, rest) := by
  unfold Reader.andThen
  cases hr : r s with
  | error e => simp
  | ok out => exact ⟨fun h => ⟨out.1, out.2, rfl, h⟩, fun ⟨_, _, ho, h⟩ => Except.ok.inj ho ▸ h⟩

/-- **One format after another**: the second value tells which the first was. -/
theorem Exact.andThen (h : Exact r write Valid)
    (h' : ∀ a, Valid a → Exact (f a) (write' a) (Valid' a))
    (hg : ∀ a b, Valid' a b → g b = a) :
    Exact (r.andThen f) (fun b => write (g b) ++ write' (g b) b)
      fun b => Valid (g b) ∧ Valid' (g b) b := by
  intro s b rest
  rw [andThen_eq_ok]
  constructor
  · rintro ⟨a, mid, hr, hread⟩
    obtain ⟨ha, rfl⟩ := (h s a mid).mp hr
    obtain ⟨hb, rfl⟩ := (h' a ha mid b rest).mp hread
    obtain rfl := hg a b hb
    exact ⟨⟨ha, hb⟩, (List.append_assoc ..).symm⟩
  · rintro ⟨⟨ha, hb⟩, rfl⟩
    exact ⟨_, _, (h _ _ _).mpr ⟨ha, List.append_assoc ..⟩, (h' _ ha _ _ _).mpr ⟨hb, rfl⟩⟩

end Exact

/-! ## Numbers as bytes -/

/-- The number some bytes stand for, the highest first. -/
def ofBytes : List UInt8 → ℕ
  | [] => 0
  | b :: bytes => b.toNat * 256 ^ bytes.length + ofBytes bytes

/-- The lowest bytes of a number, the highest first. -/
def toBytes : ℕ → ℕ → List UInt8
  | 0, _ => []
  | width + 1, n => UInt8.ofNat (n / 256 ^ width) :: toBytes width n

@[simp] theorem length_toBytes (width n : ℕ) : (toBytes width n).length = width := by
  induction width with
  | zero => rfl
  | succ width ih => rw [toBytes, List.length_cons, ih]

theorem ofBytes_lt (bytes : List UInt8) : ofBytes bytes < 256 ^ bytes.length := by
  induction bytes with
  | nil => exact Nat.one_pos
  | cons b bytes ih =>
    have hb : b.toNat < 256 := b.toNat_lt
    calc b.toNat * 256 ^ bytes.length + ofBytes bytes
        < b.toNat * 256 ^ bytes.length + 256 ^ bytes.length := by omega
      _ = (b.toNat + 1) * 256 ^ bytes.length := by ring
      _ ≤ 256 * 256 ^ bytes.length := Nat.mul_le_mul_right _ hb
      _ = 256 ^ (b :: bytes).length := by rw [List.length_cons, pow_succ']

/-- **Writing and reading back** keeps what fits the width. -/
theorem ofBytes_toBytes (width n : ℕ) : ofBytes (toBytes width n) = n % 256 ^ width := by
  induction width with
  | zero => simp [toBytes, ofBytes, Nat.mod_one]
  | succ width ih =>
    have hbyte : (UInt8.ofNat (n / 256 ^ width)).toNat = n / 256 ^ width % 256 := by simp
    rw [toBytes, ofBytes, ih, length_toBytes, hbyte, pow_succ, Nat.mod_mul]
    ring

/-- Higher parts of a number do not change its lowest bytes. -/
theorem toBytes_mul_add {width exponent : ℕ} (h : width ≤ exponent) (k n : ℕ) :
    toBytes width (k * 256 ^ exponent + n) = toBytes width n := by
  induction width with
  | zero => rfl
  | succ width ih =>
    obtain ⟨e, rfl⟩ := Nat.exists_eq_add_of_le h
    have hpos : 0 < 256 ^ width := Nat.pow_pos (by decide)
    have hsplit : k * 256 ^ (width + 1 + e) + n = n + k * 256 ^ e * 256 * 256 ^ width := by ring
    have hbyte : UInt8.ofNat ((k * 256 ^ (width + 1 + e) + n) / 256 ^ width) =
        UInt8.ofNat (n / 256 ^ width) := by
      rw [hsplit, Nat.add_mul_div_right _ _ hpos]
      apply UInt8.toNat_inj.mp
      simp
    rw [toBytes, toBytes, ih (Nat.le_of_succ_le h), hbyte]

/-- **Reading and writing back** gives the bytes. -/
theorem toBytes_ofBytes (bytes : List UInt8) : toBytes bytes.length (ofBytes bytes) = bytes := by
  induction bytes with
  | nil => rfl
  | cons b bytes ih =>
    have hpos : 0 < 256 ^ bytes.length := Nat.pow_pos (by decide)
    have hhigh : (b.toNat * 256 ^ bytes.length + ofBytes bytes) / 256 ^ bytes.length = b.toNat := by
      rw [Nat.add_comm, Nat.add_mul_div_right _ _ hpos, Nat.div_eq_of_lt (ofBytes_lt bytes),
        Nat.zero_add]
    rw [ofBytes, List.length_cons, toBytes, hhigh, toBytes_mul_add le_rfl, ih, UInt8.ofNat_toNat]

end Format

import GrpcGw.Text.Decimal
import GrpcGw.Transcode.View

/-!
# The Values of a Text

`coerce_scalar` (`transcode.rs`) reads a scalar from text. This module has the values that it can
read: those of every kind but bytes, and of the floating-point values all that are numbers and one
that is not.

- `exists_coerceScalar_iff`: the values that a text can stand for.
-/

namespace GrpcGw.Transcode

open GrpcGw.Text
open GrpcGw.Reflect

/-- Whether a value of a kind can be written as text. -/
def Spellable (kind : Kind) (v : Value) : Prop :=
  match kind, v with
  | .float, .f32 bits => binary32.Readable (binary32.magnitude bits.toNat)
  | .double, .f64 bits => binary64.Readable (binary64.magnitude bits.toNat)
  | .bytes, _ | .message _, _ => False
  | kind, v => kind.admits v = true

section Texts

variable {kind : Kind} {v : Value}

theorem parseSigned_int32 (n : Int32) : parseSigned 32 n.toInt.repr = some n.toInt := by
  rw [← Int.toString_eq_repr]
  exact parseSigned_toString n.le_toInt n.toInt_lt

theorem parseSigned_int64 (n : Int64) : parseSigned 64 n.toInt.repr = some n.toInt := by
  rw [← Int.toString_eq_repr]
  exact parseSigned_toString n.le_toInt n.toInt_lt

/-- A value that can be written has a text. -/
theorem exists_parseScalar_of_spellable (h : Spellable kind v) :
    ∃ text, parseScalar kind text = some v := by
  cases kind with
  | bool =>
    obtain ⟨b, rfl⟩ : ∃ b, v = .bool b := by
      cases v <;> simp [Spellable, Kind.admits] at h ⊢
    cases b with
    | true => exact ⟨"true", rfl⟩
    | false => exact ⟨"false", rfl⟩
  | int32 | sint32 | sfixed32 =>
    obtain ⟨n, rfl⟩ : ∃ n, v = .i32 n := by
      cases v <;> simp [Spellable, Kind.admits] at h ⊢
    exact ⟨n.toInt.repr, by simp [parseScalar, parseSigned_int32]⟩
  | int64 | sint64 | sfixed64 =>
    obtain ⟨n, rfl⟩ : ∃ n, v = .i64 n := by
      cases v <;> simp [Spellable, Kind.admits] at h ⊢
    exact ⟨n.toInt.repr, by simp [parseScalar, parseSigned_int64]⟩
  | uint32 | fixed32 =>
    obtain ⟨n, rfl⟩ : ∃ n, v = .u32 n := by
      cases v <;> simp [Spellable, Kind.admits] at h ⊢
    exact ⟨n.toNat.repr, by simp [parseScalar, parseUnsigned_repr n.toNat_lt]⟩
  | uint64 | fixed64 =>
    obtain ⟨n, rfl⟩ : ∃ n, v = .u64 n := by
      cases v <;> simp [Spellable, Kind.admits] at h ⊢
    exact ⟨n.toNat.repr, by simp [parseScalar, parseUnsigned_repr n.toNat_lt]⟩
  | float =>
    obtain ⟨bits, rfl⟩ : ∃ bits, v = .f32 bits := by
      cases v <;> simp [Spellable, Kind.admits] at h ⊢
    have hparse := FloatFormat.parse_text FloatFormat.sane_binary32 bits.toNat_lt h
    exact ⟨binary32.text bits.toNat, by simp [parseScalar, hparse]⟩
  | double =>
    obtain ⟨bits, rfl⟩ : ∃ bits, v = .f64 bits := by
      cases v <;> simp [Spellable, Kind.admits] at h ⊢
    have hparse := FloatFormat.parse_text FloatFormat.sane_binary64 bits.toNat_lt h
    exact ⟨binary64.text bits.toNat, by simp [parseScalar, hparse]⟩
  | string =>
    obtain ⟨text, rfl⟩ : ∃ text, v = .string text := by
      cases v <;> simp [Spellable, Kind.admits] at h ⊢
    exact ⟨text, rfl⟩
  | enum desc =>
    -- a number is read before a name, so it stands for itself whatever the names are
    obtain ⟨n, rfl⟩ : ∃ n, v = .enumNumber n := by
      cases v <;> simp [Spellable, Kind.admits] at h ⊢
    exact ⟨n.toInt.repr, by simp [parseScalar, parseEnum, parseSigned_int32]⟩
  | bytes => cases v <;> exact h.elim
  | message desc => cases v <;> exact h.elim

theorem toNat_ofNat_of_parse {fmt : FloatFormat} {size bits : Nat} {text : String}
    (hsane : fmt.Sane) (hsize : 2 * fmt.signBit = size) (h : fmt.parse text = some bits) :
    bits % size = bits ∧ fmt.Readable (fmt.magnitude bits) := by
  obtain ⟨hlt, hreadable⟩ := (FloatFormat.exists_parse_iff hsane).mp ⟨text, h⟩
  exact ⟨Nat.mod_eq_of_lt (hsize ▸ hlt), hreadable⟩

/-- A value that is read from a text can be written. -/
theorem spellable_of_parseScalar {text : String} (h : parseScalar kind text = some v) :
    Spellable kind v := by
  cases kind with
  | float =>
    obtain ⟨bits, hbits, rfl⟩ := Option.map_eq_some_iff.mp h
    have hsize : 2 * binary32.signBit = 2 ^ 32 := by decide
    obtain ⟨hmod, hreadable⟩ := toNat_ofNat_of_parse FloatFormat.sane_binary32 hsize hbits
    change binary32.Readable (binary32.magnitude (UInt32.ofNat bits).toNat)
    rwa [UInt32.toNat_ofNat', hmod]
  | double =>
    obtain ⟨bits, hbits, rfl⟩ := Option.map_eq_some_iff.mp h
    have hsize : 2 * binary64.signBit = 2 ^ 64 := by decide
    obtain ⟨hmod, hreadable⟩ := toNat_ofNat_of_parse FloatFormat.sane_binary64 hsize hbits
    change binary64.Readable (binary64.magnitude (UInt64.ofNat bits).toNat)
    rwa [UInt64.toNat_ofNat', hmod]
  | bytes => cases h
  | message desc => cases h
  | string =>
    cases h
    rfl
  | _ =>
    obtain ⟨n, -, rfl⟩ := Option.map_eq_some_iff.mp h
    rfl

/-- **The values of a text**: a text can stand for every scalar value but bytes, and of the
    floating-point values that are no number only for the one that `parse` gives. -/
theorem exists_coerceScalar_iff (path : String) :
    (∃ text, coerceScalar kind text path = .ok v) ↔ Spellable kind v := by
  simp only [coerceScalar_eq_ok_iff]
  constructor
  · rintro ⟨text, h⟩
    exact spellable_of_parseScalar h
  · exact exists_parseScalar_of_spellable

end Texts

end GrpcGw.Transcode

import Mathlib.Algebra.Group.Nat.Defs
import Bytesmith.Wire.Reader

namespace Bytesmith.Wire

def Reader.between (before after : List UInt8) : Reader :=
  ⟨(before ++ after).toArray, before.length⟩

def Reads {α : Type} (read : ReadM α) (bytes : List UInt8) (a : α) : Prop :=
  ∀ before after, read (.between before (bytes ++ after)) = .ok a (.between (before ++ bytes) after)

namespace Reads

variable {α β : Type}

theorem pure (a : α) : Reads (Pure.pure a) [] a := by
  intro before after
  simp only [List.nil_append, List.append_nil]
  rfl

theorem bind {x : ReadM α} {f : α → ReadM β} {bytes more : List UInt8} {a : α} {b : β}
    (hx : Reads x bytes a) (hf : Reads (f a) more b) : Reads (x >>= f) (bytes ++ more) b := by
  intro before after
  have h₁ := hx before (more ++ after)
  have h₂ := hf (before ++ bytes) after
  rw [List.append_assoc, ← List.append_assoc before]
  change EStateM.bind x f _ = _
  rw [EStateM.bind, h₁]
  exact h₂

theorem andThen {x : ReadM α} {f : α → ReadM β} {bytes : List UInt8} {a : α} {b : β}
    (hx : Reads x bytes a) (hf : Reads (f a) [] b) : Reads (x >>= f) bytes b := by
  have h := hx.bind hf
  rwa [List.append_nil] at h

theorem map {x : ReadM α} {bytes : List UInt8} {a : α} (f : α → β) (hx : Reads x bytes a) :
    Reads (x >>= fun a => Pure.pure (f a)) bytes (f a) :=
  hx.andThen (pure (f a))

theorem position {f : Nat → ReadM α} {bytes : List UInt8} {a : α}
    (hf : ∀ n, Reads (f n) bytes a) : Reads (ReadM.position >>= f) bytes a :=
  fun before after => hf before.length before after

theorem take (bytes : List UInt8) : Reads (ReadM.take bytes.length) bytes bytes := by
  intro before after
  have hdata : ((before ++ (bytes ++ after)).toArray.extract before.length
      (before.length + bytes.length)).toList = bytes := by
    simp
  have hfit : before.length + bytes.length ≤ (before ++ (bytes ++ after)).toArray.size := by
    simp
  simp only [ReadM.take, Reader.between, hfit, if_true, hdata, List.append_assoc,
    List.length_append]

end Reads

@[simp]
theorem littleEndian_length (width n : Nat) : (littleEndian width n).length = width := by
  induction width generalizing n with
  | zero => rfl
  | succ width ih => simp only [littleEndian, List.length_cons, ih]

theorem ofLittleEndian_littleEndian (width n : Nat) (h : n < 256 ^ width) :
    ofLittleEndian (littleEndian width n) = n := by
  induction width generalizing n with
  | zero =>
    have hn : n = 0 := by simpa using h
    subst n
    rfl
  | succ width ih =>
    have hq : n / 256 < 256 ^ width := by
      rw [Nat.div_lt_iff_lt_mul (by decide), ← Nat.pow_succ]
      exact h
    have hb : n.toUInt8.toNat = n % 256 := UInt8.toNat_ofNat'
    rw [littleEndian, ofLittleEndian, ih _ hq, hb]
    omega

namespace Reads

theorem word (width n : Nat) (h : n < 256 ^ width) :
    Reads (ReadM.word width) (littleEndian width n) n := by
  have ht := take (littleEndian width n)
  rw [littleEndian_length] at ht
  have hm := ht.map ofLittleEndian
  rwa [ofLittleEndian_littleEndian width n h] at hm

theorem u8 (v : UInt8) : Reads ReadM.u8 (Wire.u8 v) v := by
  have h := (word 1 v.toNat (by simpa using v.toNat_lt)).map Nat.toUInt8
  simp only [littleEndian, Nat.toUInt8_eq, UInt8.ofNat_toNat] at h
  exact h

theorem u16 (v : UInt16) : Reads ReadM.u16 (Wire.u16 v) v := by
  have h := (word 2 v.toNat (by simpa using v.toNat_lt)).map Nat.toUInt16
  rw [Nat.toUInt16_eq, UInt16.ofNat_toNat] at h
  exact h

theorem u32 (v : UInt32) : Reads ReadM.u32 (Wire.u32 v) v := by
  have h := (word 4 v.toNat (by simpa using v.toNat_lt)).map Nat.toUInt32
  rw [Nat.toUInt32_eq, UInt32.ofNat_toNat] at h
  exact h

theorem u64 (v : UInt64) : Reads ReadM.u64 (Wire.u64 v) v := by
  have h := (word 8 v.toNat (by simpa using v.toNat_lt)).map Nat.toUInt64
  rw [Nat.toUInt64_eq, UInt64.ofNat_toNat] at h
  exact h

theorem i32 (v : Int32) : Reads ReadM.i32 (Wire.i32 v) v := (u32 v.toUInt32).map UInt32.toInt32

theorem i64 (v : Int64) : Reads ReadM.i64 (Wire.i64 v) v := (u64 v.toUInt64).map UInt64.toInt64

theorem f64 (v : Double) : Reads ReadM.f64 (Wire.f64 v) v := (u64 v.bits).map Double.mk

theorem count (n : Nat) (h : n < 2 ^ 32) : Reads (ReadM.word 4) (Wire.count n) n := by
  have hn : n.toUInt32.toNat = n := by simpa using h
  rw [Wire.count, Wire.u32, hn]
  exact word 4 n (by simpa using h)

end Reads

theorem fromUTF8?_utf8 (s : String) : String.fromUTF8? ⟨(utf8 s).toArray⟩ = some s := by
  simp only [utf8, String.toUTF8_eq_toByteArray, Array.toArray_toList, String.fromUTF8?]
  rw [dif_pos s.isValidUTF8]
  rfl

namespace Reads

theorem text (s : String) (h : (utf8 s).length < 2 ^ 32) : Reads ReadM.text (Wire.text s) s := by
  refine (count _ h).bind (position fun offset => (take (utf8 s)).andThen ?_)
  simp only [fromUTF8?_utf8]
  exact pure s

theorem index (i : Option UInt32) (h : i ≠ some noIndex) : Reads ReadM.index (Wire.index i) i := by
  have hi := (u32 (i.getD noIndex)).map fun i => if i = noIndex then none else some i
  have he : (if i.getD noIndex = noIndex then none else some (i.getD noIndex)) = i := by
    cases i with
    | none => rfl
    | some i =>
      have hne : i ≠ noIndex := fun he => h (congrArg some he)
      simp [hne]
  rwa [he] at hi

variable {α : Type}

theorem times {item : ReadM α} {encode : α → List UInt8} (xs : List α)
    (h : ∀ x ∈ xs, Reads item (encode x) x) :
    Reads (ReadM.times item xs.length) (xs.flatMap encode) xs := by
  induction xs with
  | nil => exact pure []
  | cons x xs ih =>
    have ht := ih fun y hy => h y (.tail x hy)
    rw [List.flatMap_cons]
    exact (h x (.head _)).bind (ht.map (x :: ·))

theorem list {item : ReadM α} {encode : α → List UInt8} (xs : List α)
    (hn : xs.length < 2 ^ 32) (h : ∀ x ∈ xs, Reads item (encode x) x) :
    Reads (ReadM.list item) (Wire.list encode xs) xs :=
  (count _ hn).bind (times xs h)

end Reads

end Bytesmith.Wire

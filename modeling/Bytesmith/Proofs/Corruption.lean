import Bytesmith.Proofs.Loading

namespace Bytesmith.Digest

theorem and_one_eq_one (c : UInt32) : c &&& 1 = 1 ↔ c.toBitVec.getLsbD 0 = true := by
  rw [← UInt32.toBitVec_inj, UInt32.toBitVec_and]
  constructor
  · intro h
    have h₀ := congrArg (·.getLsbD 0) h
    simpa using h₀
  · intro h
    apply BitVec.eq_of_getLsbD_eq
    intro i hi
    by_cases h₀ : i = 0
    · subst h₀
      simpa using h
    · simp [h₀]

/-- The highest bit tells what the lowest was, since the polynomial has the highest bit and a shift
to the right has not. -/
theorem getLsbD_crcShift (c : UInt32) :
    (crcShift c).toBitVec.getLsbD 31 = c.toBitVec.getLsbD 0 := by
  unfold crcShift
  by_cases h : c &&& 1 = 1
  · rw [if_pos h, (and_one_eq_one c).mp h]
    simp [crcPolynomial]
  · rw [if_neg h, Bool.eq_false_iff.mpr (mt (and_one_eq_one c).mpr h)]
    simp

theorem crcShift_inj {c d : UInt32} (h : crcShift c = crcShift d) : c = d := by
  have hlow : c.toBitVec.getLsbD 0 = d.toBitVec.getLsbD 0 := by
    rw [← getLsbD_crcShift, h, getLsbD_crcShift]
  have hhigh : c >>> 1 = d >>> 1 := by
    unfold crcShift at h
    simp only [and_one_eq_one, hlow] at h
    split at h
    · exact (UInt32.xor_left_inj _).mp h
    · exact h
  apply UInt32.toBitVec_inj.mp
  apply BitVec.eq_of_getLsbD_eq
  intro i hi
  cases i with
  | zero => exact hlow
  | succ i =>
    have hbit := congrArg (fun x => x.toBitVec.getLsbD i) hhigh
    simpa [Nat.add_comm] using hbit

theorem crcShifts_inj {n : Nat} {c d : UInt32} (h : crcShifts n c = crcShifts n d) : c = d := by
  induction n generalizing c d with
  | zero => exact h
  | succ n ih => exact crcShift_inj (ih h)

theorem crcByte_inj_left {c d : UInt32} {b : UInt8} (h : crcByte c b = crcByte d b) : c = d :=
  (UInt32.xor_left_inj _).mp (crcShifts_inj h)

theorem crcByte_inj_right {c : UInt32} {a b : UInt8} (h : crcByte c a = crcByte c b) : a = b :=
  UInt8.toUInt32_inj.mp ((UInt32.xor_right_inj _).mp (crcShifts_inj h))

theorem foldl_crcByte_inj {bytes : List UInt8} {c d : UInt32}
    (h : bytes.foldl crcByte c = bytes.foldl crcByte d) : c = d := by
  induction bytes generalizing c d with
  | nil => exact h
  | cons b bytes ih => exact crcByte_inj_left (ih h)

theorem crc32_set_ne {bytes : List UInt8} {i : Nat} (hi : i < bytes.length) {b : UInt8}
    (hb : b ≠ bytes[i]) : crc32 (bytes.set i b) ≠ crc32 bytes := by
  intro h
  have hset : bytes.set i b = bytes.take i ++ b :: bytes.drop (i + 1) := by
    rw [List.set_eq_take_append_cons_drop, if_pos hi]
  have hsplit : bytes.take i ++ bytes[i] :: bytes.drop (i + 1) = bytes := by
    rw [List.getElem_cons_drop, List.take_append_drop]
  have hfold : (bytes.take i ++ b :: bytes.drop (i + 1)).foldl crcByte 0xFFFFFFFF =
      (bytes.take i ++ bytes[i] :: bytes.drop (i + 1)).foldl crcByte 0xFFFFFFFF := by
    rw [← hset, hsplit]
    exact UInt32.not_inj.mp h
  simp only [List.foldl_append, List.foldl_cons] at hfold
  exact hb (crcByte_inj_right (foldl_crcByte_inj hfold))

end Bytesmith.Digest

namespace Bytesmith.Wire

theorem stretch_set_eq {start size i : Nat} (h : i < start ∨ start + size ≤ i)
    (bytes : List UInt8) (b : UInt8) :
    stretch start size (bytes.set i b) = stretch start size bytes := by
  unfold stretch
  rw [List.drop_set]
  by_cases hi : i < start
  · rw [if_pos hi]
  · rw [if_neg hi, List.take_set_of_le (by omega)]

theorem stretch_set_ne {start size i : Nat} (h : start ≤ i) (h' : i < start + size)
    {bytes : List UInt8} (hi : i < bytes.length) {b : UInt8} (hb : b ≠ bytes[i]) :
    stretch start size (bytes.set i b) ≠ stretch start size bytes := by
  intro heq
  have hat := congrArg (·[i - start]?) heq
  have hsize : i - start < size := by omega
  have hindex : start + (i - start) = i := by omega
  simp only [stretch, List.getElem?_take_of_lt hsize, List.getElem?_drop, hindex] at hat
  rw [List.getElem?_set_self hi, List.getElem?_eq_getElem hi] at hat
  exact hb (Option.some.inj hat)

theorem wordOf_ne {xs ys : List UInt8} (hx : xs.length = 4) (hy : ys.length = 4) (h : xs ≠ ys) :
    wordOf xs ≠ wordOf ys := by
  intro heq
  rw [← u32_wordOf hx, ← u32_wordOf hy, heq] at h
  exact h rfl

end Bytesmith.Wire

namespace Bytesmith.Code.Module

open Wire

/-- The error that tells of a change at the offset, by what the changed file says and what it is
found to have. -/
def alarm (hash : List UInt8 → List UInt8) (offset : Nat) (bytes : List UInt8) : ModuleError :=
  let header := Header.ofBytes bytes
  let contents := bytes.drop headerSize
  if offset < 4 then .invalidMagic header.magic
  else if offset < 8 then .unsupportedVersion header.version
  else if 16 ≤ offset ∧ offset < headerSize then .hashMismatch header.hash (hash contents)
  else .checksumMismatch header.crc (Digest.crc32 contents)

variable {hash : List UInt8 → List UInt8} {bytes : List UInt8} {m : Module} {i : Nat} {b : UInt8}

theorem wordOf_set_ne (hlen : headerSize ≤ bytes.length) (hi : i < bytes.length)
    (hb : b ≠ bytes[i]) {start : Nat} (h : start ≤ i) (h' : i < start + 4)
    (hstart : start + 4 ≤ headerSize) :
    wordOf (stretch start 4 (bytes.set i b)) ≠ wordOf (stretch start 4 bytes) :=
  wordOf_ne (stretch_length (by rw [List.length_set]; omega)) (stretch_length (by omega))
    (stretch_set_ne h h' hi hb)

theorem crc_set_ne (hlen : headerSize ≤ bytes.length)
    (hcrc : (Header.ofBytes bytes).crc = Digest.crc32 (bytes.drop headerSize))
    (hi : i < bytes.length) (hb : b ≠ bytes[i]) (h : 12 ≤ i ∧ i < 16 ∨ headerSize ≤ i) :
    (Header.ofBytes (bytes.set i b)).crc ≠ Digest.crc32 ((bytes.set i b).drop headerSize) := by
  rw [List.drop_set]
  rcases h with ⟨h₁, h₂⟩ | h
  · rw [if_pos (Nat.lt_trans h₂ (by decide)), ← hcrc]
    exact wordOf_set_ne hlen hi hb h₁ h₂ (by decide)
  · have hstored : (Header.ofBytes (bytes.set i b)).crc = (Header.ofBytes bytes).crc :=
      congrArg wordOf (stretch_set_eq (.inr (Nat.le_trans (by decide) h)) bytes b)
    have hin : i - headerSize < (bytes.drop headerSize).length := by
      rw [List.length_drop]
      omega
    have hb' : b ≠ (bytes.drop headerSize)[i - headerSize] := by
      simpa only [List.getElem_drop, Nat.add_sub_cancel' h] using hb
    rw [if_neg (Nat.not_lt.mpr h), hstored, hcrc]
    exact (Digest.crc32_set_ne hin hb').symm

theorem verifyBy_set (hlen : headerSize ≤ bytes.length)
    (ha : Accepts hash (Header.ofBytes bytes) (bytes.drop headerSize) m)
    (hi : i < bytes.length) (hb : b ≠ bytes[i]) (h : 12 ≤ i) :
    verifyBy hash (Header.ofBytes (bytes.set i b)) ((bytes.set i b).drop headerSize) =
      .error (alarm hash i (bytes.set i b)) := by
  rw [alarm, if_neg (by omega), if_neg (by omega)]
  by_cases hhash : 16 ≤ i ∧ i < headerSize
  · have hcontents : (bytes.set i b).drop headerSize = bytes.drop headerSize := by
      rw [List.drop_set, if_pos hhash.2]
    have hcrc : (Header.ofBytes (bytes.set i b)).crc = Digest.crc32 (bytes.drop headerSize) := by
      rw [← ha.crc]
      exact congrArg wordOf (stretch_set_eq (.inr hhash.1) bytes b)
    have hstored : (Header.ofBytes (bytes.set i b)).hash ≠ hash (bytes.drop headerSize) := by
      rw [← ha.hash]
      exact stretch_set_ne hhash.1 hhash.2 hi hb
    rw [if_pos hhash, hcontents]
    simp [verifyBy, hcrc, hstored]
  · have hcrc := crc_set_ne hlen ha.crc hi hb (by omega)
    rw [if_neg hhash]
    simp [verifyBy, hcrc]

theorem decodeBy_set (hlen : headerSize ≤ bytes.length)
    (ha : Accepts hash (Header.ofBytes bytes) (bytes.drop headerSize) m)
    (hi : i < bytes.length) (hb : b ≠ bytes[i]) (hflags : i < 8 ∨ 12 ≤ i) :
    decodeBy hash (bytes.set i b).toArray = .error (alarm hash i (bytes.set i b)) := by
  have hlen' : headerSize ≤ (bytes.set i b).length := by rwa [List.length_set]
  have hdecode := decodeBy_bytes hash (Header.sized_ofBytes hlen') ((bytes.set i b).drop headerSize)
  rw [Header.append_contents hlen'] at hdecode
  rw [hdecode]
  by_cases h₁ : i < 4
  · have hmagic : (Header.ofBytes (bytes.set i b)).magic ≠ standardMagic := by
      rw [← ha.magic]
      exact stretch_set_ne (Nat.zero_le i) (by omega) hi hb
    rw [if_pos hmagic, alarm, if_pos h₁]
  have hmagic : (Header.ofBytes (bytes.set i b)).magic = standardMagic := by
    rw [← ha.magic]
    exact stretch_set_eq (.inr (by omega)) bytes b
  rw [if_neg (not_not.mpr hmagic)]
  by_cases h₂ : i < 8
  · have hversion : (Header.ofBytes (bytes.set i b)).version ≠ currentVersion := by
      rw [← ha.version]
      exact wordOf_set_ne hlen hi hb (by omega) (by omega) (by decide)
    rw [if_pos hversion, alarm, if_neg h₁, if_pos h₂]
  have hversion : (Header.ofBytes (bytes.set i b)).version = currentVersion := by
    rw [← ha.version]
    exact congrArg wordOf (stretch_set_eq (.inr (by omega)) bytes b)
  rw [if_neg (not_not.mpr hversion), verifyBy_set hlen ha hi hb (by omega)]

/-- A file that is accepted and then changed in one byte outside the flags is refused: in the magic
and the version as such, in the stored CRC and in the contents by the CRC, and in the stored hash by
the hash. -/
theorem changed_byte_refused : decodeBy Digest.sha256 = decode ∧
    ∀ (hash : List UInt8 → List UInt8) (data : Array UInt8) (m : Module),
      decodeBy hash data = .ok m →
      ∀ (i : Nat) (hi : i < data.size) (b : UInt8), b ≠ data[i] → i < 8 ∨ 12 ≤ i →
        decodeBy hash (data.set i b) = .error (alarm hash i (data.set i b).toList) := by
  refine ⟨decodeBy_sha256, fun hash data m h i hi b hb hflags => ?_⟩
  have hset := decodeBy_set (headerSize_le_of_decodeBy h) (accepts_of_decodeBy h) hi hb hflags
  rw [← Array.toList_set, Array.toArray_toList] at hset
  exact hset

theorem changed_byte_refused_specimen :
    ∃ (m : Module) (h : headerSize < specimen.encode.toArray.size),
      decode specimen.encode.toArray = .ok m ∧ (8 : UInt8) ≠ specimen.encode.toArray[headerSize] ∧
      decode (specimen.encode.toArray.set headerSize 8) = .error
        (alarm Digest.sha256 headerSize (specimen.encode.toArray.set headerSize 8).toList) := by
  have hdecode := specimen.decode_written specimen_encodable
  have hbyte : specimen.encode.toArray[headerSize]? = some 7 := by
    rw [List.getElem?_toArray, ← Nat.add_zero headerSize, ← List.getElem?_drop,
      specimen.drop_header rfl]
    rfl
  obtain ⟨h, hbyte⟩ := Array.getElem?_eq_some_iff.mp hbyte
  have hne : (8 : UInt8) ≠ specimen.encode.toArray[headerSize] := by
    rw [hbyte]
    decide
  refine ⟨_, h, hdecode, hne, ?_⟩
  rw [← changed_byte_refused.1] at hdecode ⊢
  exact changed_byte_refused.2 _ _ _ hdecode headerSize h 8 hne (by decide)

end Bytesmith.Code.Module

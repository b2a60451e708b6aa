import Bytesmith.Build.Emitter
import Bytesmith.Code.Disassembly
import Bytesmith.Proofs.Decoding
import Bytesmith.Proofs.Format

namespace Bytesmith.Code

open Wire

theorem Opcode.ofByte?_toByte (op : Opcode) : ofByte? op.toByte = some op := by
  cases op with
  | arith kind op => cases kind <;> cases op <;> rfl
  | widen w => cases w <;> rfl
  | branch t => cases t <;> rfl
  | call mode => cases mode <;> rfl
  | _ => rfl

namespace Instr

variable {τ σ : Type}

theorem reads_operands (i : Instr Int32) : Reads (decodeOperands i.opcode) i.operands i := by
  cases i with
  | constBool b => cases b <;> exact Reads.pure _
  | constI32 v => exact (Reads.i32 v).map constI32
  | constI64 v => exact (Reads.i64 v).map constI64
  | constF64 v => exact (Reads.f64 v).map constF64
  | constStr index => exact (Reads.u32 index).map constStr
  | loadLocal slot => exact (Reads.u16 slot).map loadLocal
  | storeLocal slot => exact (Reads.u16 slot).map storeLocal
  | jump distance => exact (Reads.i32 distance).map jump
  | branch test distance => exact (Reads.i32 distance).map (branch test)
  | call mode function argc =>
    exact (Reads.u32 function).bind ((Reads.u16 argc).map (call mode function))
  | new id => exact (Reads.u32 id).map new
  | loadField id => exact (Reads.u32 id).map loadField
  | storeField id => exact (Reads.u32 id).map storeField
  | loadStatic id => exact (Reads.u32 id).map loadStatic
  | storeStatic id => exact (Reads.u32 id).map storeStatic
  | box tag => exact (Reads.u8 tag).map box
  | unbox tag => exact (Reads.u8 tag).map unbox
  | cast tag => exact (TypeTag.reads tag).map cast
  | _ => exact Reads.pure _

theorem reads (i : Instr Int32) : Reads decode i.encode i := by
  refine Reads.position fun offset => (Reads.u8 i.opcode.toByte).bind ?_
  simp only [Opcode.ofByte?_toByte]
  exact i.reads_operands

theorem encode_length (i : Instr Int32) : i.encode.length = i.size := by
  cases i with
  | constBool b => cases b <;> rfl
  | cast tag => cases tag <;> simp [encode, operands, size, opcode, Opcode.operandSize,
      TypeTag.encode, u8, u32]
  | _ => simp [encode, operands, size, opcode, Opcode.operandSize, i32, i64, f64, u8, u16, u32, u64]

theorem opcode_mapTarget (f : τ → σ) (i : Instr τ) : (i.mapTarget f).opcode = i.opcode := by
  cases i with
  | constBool b => cases b <;> rfl
  | _ => rfl

@[simp]
theorem size_mapTarget (f : τ → σ) (i : Instr τ) : (i.mapTarget f).size = i.size := by
  rw [size, size, opcode_mapTarget]

theorem target?_mapTarget (f : τ → σ) (i : Instr τ) :
    (i.mapTarget f).target? = i.target?.map f := by
  cases i <;> rfl

theorem size_pos (i : Instr τ) : 0 < i.size := by
  rw [size]
  omega

end Instr

end Bytesmith.Code

namespace Bytesmith.Build

open Code Wire

variable {τ : Type}

def instrAt : List (Instr τ) → Nat → Option (Instr τ)
  | [], _ => none
  | i :: code, offset =>
    if offset = 0 then some i else if offset < i.size then none else instrAt code (offset - i.size)

theorem instrAt_totalSize (before after : List (Instr τ)) (i : Instr τ) :
    instrAt (before ++ i :: after) (totalSize before) = some i := by
  induction before with
  | nil => rfl
  | cons j before ih =>
    have hpos := j.size_pos
    have hne : j.size + totalSize before ≠ 0 := by omega
    have hlt : ¬ j.size + totalSize before < j.size := by omega
    simp only [List.cons_append, totalSize, instrAt, hne, hlt, if_false, Nat.add_sub_cancel_left]
    exact ih

variable {offset : Nat} {code : List (Instr τ)} {i : Instr τ}

theorem instrAt_eq_some_iff :
    instrAt code offset = some i ↔
      ∃ before after, code = before ++ i :: after ∧ totalSize before = offset := by
  constructor
  · intro h
    induction code generalizing offset with
    | nil => cases h
    | cons j code ih =>
      rw [instrAt] at h
      by_cases h0 : offset = 0
      · rw [if_pos h0] at h
        cases h
        exact ⟨[], code, rfl, h0.symm⟩
      · rw [if_neg h0] at h
        by_cases hlt : offset < j.size
        · rw [if_pos hlt] at h
          cases h
        · rw [if_neg hlt] at h
          obtain ⟨before, after, rfl, hs⟩ := ih h
          refine ⟨j :: before, after, rfl, ?_⟩
          rw [totalSize, hs]
          omega
  · rintro ⟨before, after, rfl, rfl⟩
    exact instrAt_totalSize before after i

theorem instrAt_concat {j : Instr τ} :
    instrAt (code ++ [i]) offset = some j ↔
      instrAt code offset = some j ∨ offset = totalSize code ∧ j = i := by
  rw [instrAt_eq_some_iff, instrAt_eq_some_iff]
  constructor
  · rintro ⟨before, after, hcode, rfl⟩
    obtain rfl | ⟨after, last, rfl⟩ := after.eq_nil_or_concat
    · obtain ⟨rfl, hi⟩ := List.append_inj' hcode rfl
      cases hi
      exact .inr ⟨rfl, rfl⟩
    · rw [List.concat_eq_append, ← List.cons_append, ← List.append_assoc] at hcode
      exact .inl ⟨before, after, (List.append_inj' hcode rfl).1, rfl⟩
  · rintro (⟨before, after, rfl, rfl⟩ | ⟨rfl, rfl⟩)
    · exact ⟨before, after ++ [i], List.append_assoc .., rfl⟩
    · exact ⟨code, [], rfl, rfl⟩

theorem mem_iff_instrAt : i ∈ code ↔ ∃ offset, instrAt code offset = some i := by
  simp only [instrAt_eq_some_iff, List.mem_iff_append]
  constructor
  · rintro ⟨before, after, hcode⟩
    exact ⟨_, before, after, hcode, rfl⟩
  · rintro ⟨_, before, after, hcode, -⟩
    exact ⟨before, after, hcode⟩

theorem instrAt_next_le (h : instrAt code offset = some i) : offset + i.size ≤ totalSize code := by
  obtain ⟨before, after, rfl, rfl⟩ := instrAt_eq_some_iff.mp h
  rw [totalSize_append, totalSize]
  omega

def IsBoundary (code : List (Instr τ)) (offset : Nat) : Prop :=
  ∃ before after, code = before ++ after ∧ totalSize before = offset

theorem isBoundary_totalSize (code : List (Instr τ)) : IsBoundary code (totalSize code) :=
  ⟨code, [], (List.append_nil code).symm, rfl⟩

theorem IsBoundary.append (h : IsBoundary code offset)
    (more : List (Instr τ)) : IsBoundary (code ++ more) offset := by
  obtain ⟨before, after, rfl, hs⟩ := h
  exact ⟨before, after ++ more, List.append_assoc before after more, hs⟩

theorem IsBoundary.le (h : IsBoundary code offset) : offset ≤ totalSize code := by
  obtain ⟨before, after, rfl, rfl⟩ := h
  rw [totalSize_append]
  omega

theorem IsBoundary.exists_instrAt (h : IsBoundary code offset)
    (hlt : offset < totalSize code) : ∃ i, instrAt code offset = some i := by
  obtain ⟨before, after, rfl, rfl⟩ := h
  cases after with
  | nil =>
    rw [List.append_nil] at hlt
    exact absurd hlt (Nat.lt_irrefl _)
  | cons i after => exact ⟨i, instrAt_totalSize before after i⟩

namespace Emitter

variable (distance : Nat → Label → Int32)

theorem assemble_append (offset : Nat) (a b : List (Instr Label)) :
    assemble distance offset (a ++ b) =
      assemble distance offset a ++ assemble distance (offset + totalSize a) b := by
  induction a generalizing offset with
  | nil => rfl
  | cons i a ih =>
    simp only [List.cons_append, assemble, ih, totalSize, List.append_assoc, Nat.add_assoc]

theorem assemble_length (offset : Nat) (code : List (Instr Label)) :
    (assemble distance offset code).length = totalSize code := by
  induction code generalizing offset with
  | nil => rfl
  | cons i code ih =>
    rw [assemble, List.length_append, Instr.encode_length, Instr.size_mapTarget, ih, totalSize]

variable {code : List (Instr Label)}

theorem decode_assemble {i : Instr Label} (h : instrAt code offset = some i) :
    Instr.decode ⟨(assemble distance 0 code).toArray, offset⟩ =
      .ok (i.mapTarget (distance (offset + i.size)))
        ⟨(assemble distance 0 code).toArray, offset + i.size⟩ := by
  obtain ⟨before, after, rfl, rfl⟩ := instrAt_eq_some_iff.mp h
  have hr := (i.mapTarget (distance (totalSize before + i.size))).reads
    (assemble distance 0 before) (assemble distance (totalSize before + i.size) after)
  rw [assemble_append, Nat.zero_add, assemble]
  simpa only [Reader.between, assemble_length, List.append_assoc, List.length_append,
    Instr.encode_length, Instr.size_mapTarget] using hr

def placed : Nat → List (Instr Label) → List Placed
  | _, [] => []
  | offset, i :: code =>
    ⟨offset, offset + i.size, i.mapTarget (distance (offset + i.size))⟩ ::
      placed (offset + i.size) code

theorem mem_placed {start : Nat} {p : Placed} :
    p ∈ placed distance start code ↔
      ∃ offset i, instrAt code offset = some i ∧
        p = ⟨start + offset, start + offset + i.size,
          i.mapTarget (distance (start + offset + i.size))⟩ := by
  induction code generalizing start with
  | nil => simp [placed, instrAt]
  | cons j code ih =>
    rw [placed, List.mem_cons, ih]
    constructor
    · rintro (rfl | ⟨offset, i, hi, rfl⟩)
      · exact ⟨0, j, rfl, rfl⟩
      · refine ⟨j.size + offset, i, ?_, by simp only [Nat.add_assoc]⟩
        have hpos := j.size_pos
        have hne : j.size + offset ≠ 0 := by omega
        have hlt : ¬ j.size + offset < j.size := by omega
        simpa only [instrAt, hne, hlt, if_false, Nat.add_sub_cancel_left] using hi
    · rintro ⟨offset, i, hi, rfl⟩
      rw [instrAt] at hi
      by_cases h0 : offset = 0
      · rw [if_pos h0] at hi
        cases hi
        subst h0
        exact .inl rfl
      · rw [if_neg h0] at hi
        by_cases hlt : offset < j.size
        · rw [if_pos hlt] at hi
          cases hi
        · rw [if_neg hlt] at hi
          refine .inr ⟨offset - j.size, i, hi, ?_⟩
          have he : start + j.size + (offset - j.size) = start + offset := by omega
          rw [he]

theorem getLast?_placed (start : Nat) (code : List (Instr Label)) :
    (placed distance start code).getLast?.map (·.instr.opcode) =
      code.getLast?.map Instr.opcode := by
  induction code generalizing start with
  | nil => rfl
  | cons i code ih =>
    rw [placed]
    cases code with
    | nil => simp [placed, Instr.opcode_mapTarget]
    | cons j code =>
      have h := ih (start + i.size)
      rw [placed] at h ⊢
      rw [List.getLast?_cons_cons, List.getLast?_cons_cons]
      exact h

theorem decodeAll_of_isAtEnd {r : Reader} (h : r.isAtEnd) (fuel : Nat) :
    decodeAll fuel r = .ok [] r := by
  cases fuel with
  | zero => rfl
  | succ fuel =>
    rw [decodeAll, Outcome.get_bind, if_pos h]
    rfl

theorem decodeAll_succ {r next last : Reader} {i : Instr Int32} {rest : List Placed} {fuel : Nat}
    (hend : ¬ r.isAtEnd) (hdecode : Instr.decode r = .ok i next)
    (hrest : decodeAll fuel next = .ok rest last) :
    decodeAll (fuel + 1) r = .ok (⟨r.position, next.position, i⟩ :: rest) last := by
  rw [decodeAll, Outcome.get_bind, if_neg hend]
  refine Outcome.bind_eq_ok.mpr ⟨i, next, hdecode, ?_⟩
  refine Outcome.bind_eq_ok.mpr ⟨next.position, next, rfl, ?_⟩
  exact Outcome.bind_eq_ok.mpr ⟨rest, last, hrest, rfl⟩

theorem decodeAll_assemble (before : List UInt8) (code : List (Instr Label)) (fuel : Nat)
    (hfuel : code.length ≤ fuel) :
    decodeAll fuel (.between before (assemble distance before.length code)) =
      .ok (placed distance before.length code)
        (.between (before ++ assemble distance before.length code) []) := by
  induction code generalizing before fuel with
  | nil =>
    have hend : (Reader.between before []).isAtEnd := by simp [Reader.isAtEnd, Reader.between]
    simpa only [assemble, placed, List.append_nil] using decodeAll_of_isAtEnd hend fuel
  | cons i code ih =>
    cases fuel with
    | zero => simp at hfuel
    | succ fuel =>
      let linked := i.mapTarget (distance (before.length + i.size))
      have hsize : (before ++ linked.encode).length = before.length + i.size := by
        rw [List.length_append, Instr.encode_length, Instr.size_mapTarget]
      have hrest := ih (before ++ linked.encode) fuel (by simpa using hfuel)
      rw [hsize] at hrest
      have hdecode := linked.reads before (assemble distance (before.length + i.size) code)
      have hend : ¬ (Reader.between before (linked.encode ++
          assemble distance (before.length + i.size) code)).isAtEnd := by
        have hpos := linked.size_pos
        simp [Reader.isAtEnd, Reader.between, Instr.encode_length]
        omega
      have h := decodeAll_succ hend hdecode hrest
      simpa only [assemble, placed, Reader.between, hsize, List.append_assoc] using h

theorem instructions_assemble (code : List (Instr Label)) :
    instructions (assemble distance 0 code).toArray = .ok (placed distance 0 code) := by
  have hfuel : code.length ≤ (assemble distance 0 code).toArray.size := by
    rw [List.size_toArray, assemble_length]
    induction code with
    | nil => exact Nat.zero_le _
    | cons i code ih =>
      have hpos := i.size_pos
      rw [List.length_cons, totalSize]
      omega
  have h := decodeAll_assemble distance [] code _ hfuel
  simp only [Reader.between, List.nil_append, List.length_nil] at h
  simp only [instructions, Reader.ofArray, h]

variable {distance}

theorem fetch_assemble {f : Machine.Frame} {i : Instr Label}
    (hcode : f.function.code = (assemble distance 0 code).toArray)
    (h : instrAt code f.position = some i) :
    f.fetch = .ok (i.mapTarget (distance (f.position + i.size)),
      { f with position := f.position + i.size }) := by
  rw [Machine.Frame.fetch, Machine.Frame.read, hcode, decode_assemble distance h]

theorem distance_toInt {e : Emitter} {l : Label} {target next : Nat}
    (h : e.position? l = some target) (htarget : target < 2 ^ 31) (hnext : next < 2 ^ 31) :
    next + (e.distance next l).toInt = target := by
  rw [Emitter.distance, h, Option.getD_some, Int32.toInt_sub, Int32.toInt_ofNat', Int32.toInt_ofNat']
  have hsize : Int32.size = 2 ^ 32 := rfl
  have ht : (target : Int).bmod (2 ^ 32) = target := Int.bmod_eq_of_le (by omega) (by omega)
  have hn : (next : Int).bmod (2 ^ 32) = next := Int.bmod_eq_of_le (by omega) (by omega)
  rw [hsize, ht, hn, Int.bmod_eq_of_le (by omega) (by omega)]
  omega

theorem jump_distance {e : Emitter} {f : Machine.Frame} {l : Label} {target : Nat}
    (h : e.position? l = some target) (htarget : target ≤ f.function.code.size)
    (hnext : f.position < 2 ^ 31) (hsize : f.function.code.size < 2 ^ 31) :
    f.jump (e.distance f.position l) = .ok { f with position := target } := by
  have hd := distance_toInt h (by omega : target < 2 ^ 31) hnext
  simp only [Machine.Frame.jump, hd]
  simp
  omega

end Emitter

end Bytesmith.Build

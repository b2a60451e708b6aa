import Bytesmith.Build.CodeBuffer
import Bytesmith.Proofs.Emission
import Bytesmith.Proofs.Layout

namespace Bytesmith.Wire

theorem patch_append (front old word back : List UInt8) (h : old.length = word.length) :
    patch (front ++ (old ++ back)) front.length word = front ++ (word ++ back) := by
  rw [patch, List.take_left, ← h, ← List.length_append, ← List.append_assoc, List.drop_left,
    List.append_assoc]

end Bytesmith.Wire

namespace Bytesmith.Code.Instr

variable {τ σ : Type} {i : Instr τ}

theorem mapTarget_congr (hi : i.target? = none) (f g : τ → σ) : i.mapTarget f = i.mapTarget g := by
  cases i with
  | jump | branch => cases hi
  | _ => rfl

theorem size_of_target? {l : τ} (hi : i.target? = some l) : i.size = 5 := by
  cases i with
  | jump | branch => rfl
  | _ => cases hi

theorem encode_of_target? {i : Instr τ} {l : τ} (hi : i.target? = some l) (f : τ → Int32) :
    (i.mapTarget f).encode = i.opcode.toByte :: Wire.i32 (f l) := by
  cases i with
  | jump | branch =>
    cases hi
    rfl
  | _ => cases hi

theorem operandSize_eq_zero_iff {op : Opcode} :
    op.operandSize = 0 ↔ ∃ i : Instr τ, ofOpcode? op = some i := by
  cases op <;> simp [Opcode.operandSize, ofOpcode?]

end Bytesmith.Code.Instr

namespace Bytesmith.Build

open Code Wire Outcome

namespace CodeBuffer

theorem opJump_eq (b : CodeBuffer) (op : Opcode) (l : Label) : b.opJump op l =
    { b with
      bytes := b.bytes ++ (op.toByte :: i32 0)
      jumps := b.jumps ++ [(⟨b.offset + 1, l⟩ : OpenJump)]
      lastOpcode := some op } := by
  have hoffset : (b.op op).offset = b.offset + 1 := Array.size_push ..
  rw [opJump, hoffset]
  rfl

theorem put_eq (b : CodeBuffer) (i : Instr Label) : b.put i =
    { b with
      bytes := b.bytes ++ (i.mapTarget fun _ => 0).encode
      jumps := b.jumps ++ i.target?.toList.map fun l => (⟨b.offset + 1, l⟩ : OpenJump)
      lastOpcode := some i.opcode } := by
  cases i with
  | constBool v => cases v <;> rfl
  | jump l => exact b.opJump_eq .jump l
  | branch test l => exact b.opJump_eq (.branch test) l
  | call mode function argc =>
    have hword (bytes : Array UInt8) (a b : List UInt8) : bytes ++ a ++ b = bytes ++ (a ++ b) :=
      Array.ext' (by simp)
    rw [put, write, write, Instr.mapTarget, Instr.encode, Instr.operands]
    dsimp only
    rw [hword]
    rfl
  | _ => rfl

end CodeBuffer

namespace Emitter

def jumpsFrom : Nat → List (Instr Label) → List OpenJump
  | _, [] => []
  | offset, i :: code =>
    i.target?.toList.map (fun l => ⟨offset + 1, l⟩) ++ jumpsFrom (offset + i.size) code

def buffer (e : Emitter) : CodeBuffer where
  name := e.name
  paramCount := e.paramCount
  bytes := e.bytes.toArray
  locals := e.locals
  nextLabel := e.nextLabel
  marks := e.marks
  jumps := (jumpsFrom 0 e.code.toList).toArray
  handlers := e.handlers
  regions := e.regions
  lastOpcode := e.code.back?.map Instr.opcode
  isFinished := e.isFinished

theorem buffer_start (name : String) (paramCount : Nat) :
    (start name paramCount).buffer = .start name paramCount := rfl

variable (e : Emitter)

theorem jumpsFrom_append (offset : Nat) (code more : List (Instr Label)) :
    jumpsFrom offset (code ++ more) =
      jumpsFrom offset code ++ jumpsFrom (offset + totalSize code) more := by
  induction code generalizing offset with
  | nil => rfl
  | cons i code ih =>
    rw [List.cons_append, jumpsFrom, jumpsFrom, ih, totalSize, Nat.add_assoc, List.append_assoc]

theorem targets_jumpsFrom (offset : Nat) (code : List (Instr Label)) :
    (jumpsFrom offset code).map (·.target) = code.filterMap Instr.target? := by
  induction code generalizing offset with
  | nil => rfl
  | cons i code ih =>
    rw [jumpsFrom, List.map_append, ih, List.filterMap_cons]
    cases i.target? <;> rfl

theorem offset_buffer : e.buffer.offset = e.offset := by
  change e.bytes.toArray.size = e.offset
  rw [List.size_toArray, bytes, assemble_length, offset_eq]

theorem canFallThrough_buffer : e.buffer.canFallThrough = e.canFallThrough := by
  rw [CodeBuffer.canFallThrough, canFallThrough, offset_buffer]
  have hlast : e.buffer.lastOpcode = e.code.back?.map Instr.opcode := rfl
  rw [hlast]
  cases e.code.back? <;> rfl

theorem unmarkedLabels_buffer : e.buffer.unmarkedLabels = e.unmarkedLabels := by
  unfold CodeBuffer.unmarkedLabels unmarkedLabels targets
  rw [← targets_jumpsFrom 0]
  rfl

theorem buffer_push (he : e.isFinished = false) (i : Instr Label) :
    (e.push i).buffer = e.buffer.put i := by
  have hcode : (e.push i).code.toList = e.code.toList ++ [i] := Array.toList_push ..
  have hbytes : (e.push i).bytes.toArray = e.bytes.toArray ++ (i.mapTarget fun _ => 0).encode := by
    have hpush : (e.push i).isFinished = false := he
    apply Array.ext'
    rw [bytes, bytes, he, hpush, hcode, assemble_append]
    simp [assemble]
  have hjumps : (jumpsFrom 0 (e.push i).code.toList).toArray =
      (jumpsFrom 0 e.code.toList).toArray ++
        i.target?.toList.map fun l => (⟨e.offset + 1, l⟩ : OpenJump) := by
    apply Array.ext'
    rw [hcode, jumpsFrom_append, offset_eq]
    simp [jumpsFrom]
  have hlast : (e.push i).code.back? = some i := Array.back?_push ..
  rw [CodeBuffer.put_eq, offset_buffer, buffer, hbytes, hjumps, hlast]
  rfl

theorem foldl_patchJump_instr (front rest : List UInt8) (i : Instr Label) :
    (i.target?.toList.map fun l => (⟨front.length + 1, l⟩ : OpenJump)).foldl e.buffer.patchJump
      (front ++ ((i.mapTarget fun _ => 0).encode ++ rest)) =
        front ++ ((i.mapTarget (e.distance (front.length + i.size))).encode ++ rest) := by
  cases hi : i.target? with
  | none =>
    rw [Instr.mapTarget_congr hi (e.distance (front.length + i.size)) fun _ => 0]
    rfl
  | some l =>
    have hdistance : e.buffer.distance ⟨front.length + 1, l⟩ = e.distance (front.length + i.size) l := by
      rw [Instr.size_of_target? hi]
      rfl
    have hpatch := patch_append (front ++ [i.opcode.toByte]) (i32 0)
      (i32 (e.distance (front.length + i.size) l)) rest rfl
    rw [Instr.encode_of_target? hi, Instr.encode_of_target? hi]
    change patch _ (front.length + 1) (i32 (e.buffer.distance ⟨front.length + 1, l⟩)) = _
    rw [hdistance]
    rwa [List.length_append, List.append_assoc, List.append_assoc] at hpatch

/-- Writing the distances, from the first jump to the last, makes of code that was emitted without
them the code with all of them. -/
theorem foldl_patchJump (front : List UInt8) (code : List (Instr Label)) :
    (jumpsFrom front.length code).foldl e.buffer.patchJump
      (front ++ assemble (fun _ _ => 0) front.length code) =
        front ++ assemble e.distance front.length code := by
  induction code generalizing front with
  | nil => rfl
  | cons i code ih =>
    have hlength : (front ++ (i.mapTarget (e.distance (front.length + i.size))).encode).length =
        front.length + i.size := by
      rw [List.length_append, Instr.encode_length, Instr.size_mapTarget]
    have hrest := ih (front ++ (i.mapTarget (e.distance (front.length + i.size))).encode)
    rw [hlength, List.append_assoc, List.append_assoc] at hrest
    rw [jumpsFrom, assemble, assemble, List.foldl_append, foldl_patchJump_instr, hrest]

theorem buffer_mark (he : e.isFinished = false) (marks : List (Label × Nat)) :
    { e with marks := marks }.buffer = { e.buffer with marks := marks } := by
  have hbytes : { e with marks := marks }.bytes = e.bytes := by
    rw [bytes, bytes, he]
    rfl
  rw [buffer, hbytes]
  rfl

theorem buffer_finish (he : e.isFinished = false) :
    { e with isFinished := true }.buffer = e.buffer.resolve := by
  have hresolved := e.foldl_patchJump [] e.code.toList
  rw [List.nil_append, List.nil_append, List.length_nil] at hresolved
  have hbytes : e.buffer.bytes.toList = assemble (fun _ _ => 0) 0 e.code.toList := by
    change e.bytes = _
    rw [bytes, he, if_neg Bool.false_ne_true]
  have hjumps : e.buffer.jumps.toList = jumpsFrom 0 e.code.toList := rfl
  rw [CodeBuffer.resolve, hbytes, hjumps, hresolved]
  rfl

end Emitter

instance decidableEqResult {ε σ α : Type} [DecidableEq ε] [DecidableEq σ] [DecidableEq α] :
    DecidableEq (EStateM.Result ε σ α)
  | .ok a s, .ok b t => decidable_of_iff (a = b ∧ s = t) (by simp)
  | .error a s, .error b t => decidable_of_iff (a = b ∧ s = t) (by simp)
  | .ok _ _, .error _ _ => .isFalse nofun
  | .error _ _, .ok _ _ => .isFalse nofun

def buffered {α : Type} : EStateM.Result BuildError Emitter α → EStateM.Result BuildError CodeBuffer α
  | .ok a e => .ok a e.buffer
  | .error err e => .error err e.buffer

/-- The emitter and its buffer do the same: they give the same result or fail alike, and the buffer
is again that of the emitter. -/
def Mirrors {α : Type} (e : Emitter) (x : EmitM α) (y : BufferM α) : Prop :=
  y e.buffer = buffered (x e)

namespace Mirrors

variable {α β : Type} {e : Emitter} {x : EmitM α} {y : BufferM α} {f : α → EmitM β}
  {g : α → BufferM β}

theorem bind (h : Mirrors e x y) (hf : ∀ a e', x e = .ok a e' → Mirrors e' (f a) (g a)) :
    Mirrors e (x >>= f) (y >>= g) := by
  unfold Mirrors at h ⊢
  cases hx : x e with
  | ok a e' =>
    rw [hx] at h
    rw [bind_of_ok h, bind_of_ok hx]
    exact hf a e' hx
  | error err e' =>
    rw [hx] at h
    rw [bind_of_error h, bind_of_error hx]
    rfl

theorem eq_ok_iff (h : Mirrors e x y) {a : α} {b : CodeBuffer} :
    y e.buffer = .ok a b ↔ ∃ e', x e = .ok a e' ∧ e'.buffer = b := by
  rw [h]
  cases x e with
  | ok a' e' => simp [buffered]
  | error err e' => simp [buffered]

theorem succeeds_iff (h : Mirrors e x y) :
    (∃ a b, y e.buffer = .ok a b) ↔ ∃ a e', x e = .ok a e' := by
  simp only [h.eq_ok_iff]
  constructor
  · rintro ⟨a, _, e', hx, rfl⟩
    exact ⟨a, e', hx⟩
  · rintro ⟨a, e', hx⟩
    exact ⟨a, _, e', hx, rfl⟩

theorem eq_error_iff (h : Mirrors e x y) {err : BuildError} {b : CodeBuffer} :
    y e.buffer = .error err b ↔ ∃ e', x e = .error err e' ∧ e'.buffer = b := by
  rw [h]
  cases x e with
  | ok a' e' => simp [buffered]
  | error err e' => simp [buffered]

theorem map (h : Mirrors e x y) (g : α → β) : Mirrors e (g <$> x) (g <$> y) := by
  rw [map_eq_pure_bind, map_eq_pure_bind]
  exact h.bind fun _ _ _ => rfl

theorem ensureOpen_bind {f : Unit → EmitM α} {g : Unit → BufferM α}
    (h : e.isFinished = false → Mirrors e (f ()) (g ())) :
    Mirrors e (EmitM.ensureOpen >>= f) (BufferM.ensureOpen >>= g) := by
  have hfinished : e.buffer.isFinished = e.isFinished := rfl
  cases he : e.isFinished with
  | true =>
    have hclosed : BufferM.ensureOpen e.buffer =
        .error (.invalidOperation (.finishedEmitter e.name)) e.buffer := by
      rw [BufferM.ensureOpen, get_bind, hfinished, he]
      rfl
    rw [Mirrors, bind_of_error hclosed, bind_of_error (EmitM.ensureOpen_of_finished he)]
    rfl
  | false =>
    have hopen : BufferM.ensureOpen e.buffer = .ok () e.buffer := by
      rw [BufferM.ensureOpen, get_bind, hfinished, he]
      rfl
    rw [Mirrors, bind_of_ok hopen, bind_of_ok (EmitM.ensureOpen_of_open he)]
    exact h he

theorem push (he : e.isFinished = false) (i : Instr Label) :
    Mirrors e (modify (·.push i)) (modify (·.put i)) := by
  change EStateM.Result.ok _ (e.buffer.put i) = EStateM.Result.ok _ (e.push i).buffer
  rw [e.buffer_push he]

theorem emit (i : Instr Label) : Mirrors e (EmitM.emit i) (BufferM.emit i) :=
  ensureOpen_bind fun he => push he i

theorem emitOpcode (op : Opcode) : Mirrors e (EmitM.emitOpcode op) (BufferM.emitOpcode op) := by
  refine ensureOpen_bind fun he => ?_
  by_cases hop : op.operandSize = 0
  · obtain ⟨i, hi⟩ := Instr.operandSize_eq_zero_iff.mp hop
    have hput : e.buffer.put i = e.buffer.op op := by
      cases op <;> cases hi <;> rfl
    rw [hi, if_neg (not_not.mpr hop)]
    change EStateM.Result.ok _ (e.buffer.op op) = EStateM.Result.ok _ (e.push i).buffer
    rw [e.buffer_push he, hput]
  · have hnone : (Instr.ofOpcode? op : Option (Instr Label)) = none := by
      rw [Option.eq_none_iff_forall_ne_some]
      exact fun i hi => hop (Instr.operandSize_eq_zero_iff.mpr ⟨i, hi⟩)
    rw [hnone, if_pos hop]
    rfl

theorem emitKind {op : Opcode} (kind : ValueKind) (i : Instr Label) :
    Mirrors e
      (do EmitM.ensureOpen
          if kind = .reference then throw (.invalidArgument (.notValueKind op))
          modify (·.push i))
      (do BufferM.ensureOpen
          if kind = .reference then throw (.invalidArgument (.notValueKind op))
          modify (·.put i)) := by
  refine ensureOpen_bind fun he => ?_
  by_cases hkind : kind = .reference
  · rw [if_pos hkind, if_pos hkind]
    rfl
  · rw [if_neg hkind, if_neg hkind]
    exact push he i

theorem declareLocal (name : String) :
    Mirrors e (EmitM.declareLocal name) (BufferM.declareLocal name) := by
  refine ensureOpen_bind fun _ => ?_
  rw [Mirrors, get_bind, get_bind]
  change (if 65536 ≤ e.localCount then _ else _ : BufferM _) _ = _
  split <;> rfl

theorem markLabel (l : Label) : Mirrors e (EmitM.markLabel l) (BufferM.markLabel l) := by
  refine ensureOpen_bind fun he => ?_
  rw [Mirrors, get_bind, get_bind, e.offset_buffer]
  change (if e.isMarked l then _ else _ : BufferM _) _ = _
  split
  · rfl
  · exact congrArg (EStateM.Result.ok PUnit.unit) (e.buffer_mark he _).symm

theorem leaveTo (l : Label) : Mirrors e (EmitM.leaveTo l) (BufferM.leaveTo l) := by
  rw [Mirrors, EmitM.leaveTo, BufferM.leaveTo, get_bind, get_bind, e.canFallThrough_buffer]
  split
  · exact emit (.jump l)
  · rfl

theorem beginTry : Mirrors e EmitM.beginTry BufferM.beginTry := by
  refine ensureOpen_bind fun _ => ?_
  change EStateM.Result.ok _ { e.buffer with
    nextLabel := e.nextLabel + 1
    regions := ⟨e.buffer.offset, none, ⟨e.nextLabel⟩, 0⟩ :: e.regions } = _
  rw [e.offset_buffer]
  rfl

theorem beginCatch (tag : TypeTag) : Mirrors e (EmitM.beginCatch tag) (BufferM.beginCatch tag) := by
  refine ensureOpen_bind fun _ => ?_
  rw [Mirrors, get_bind, get_bind, e.offset_buffer]
  have hregions : e.buffer.regions = e.regions := rfl
  rw [hregions]
  cases e.regions with
  | nil => rfl
  | cons region outer =>
    refine (leaveTo region.endLabel).bind fun _ e' _ => ?_
    change EStateM.Result.ok _ _ = EStateM.Result.ok _ _
    dsimp only
    rw [e'.offset_buffer]
    rfl

theorem endTry : Mirrors e EmitM.endTry BufferM.endTry := by
  refine ensureOpen_bind fun _ => ?_
  rw [Mirrors, get_bind, get_bind]
  have hregions : e.buffer.regions = e.regions := rfl
  rw [hregions]
  cases e.regions with
  | nil => rfl
  | cons region outer =>
    dsimp only
    split
    · rfl
    · exact (leaveTo (e := { e with regions := outer }) region.endLabel).bind fun _ _ _ =>
        markLabel region.endLabel

theorem finish : Mirrors e EmitM.finish BufferM.finish := by
  refine ensureOpen_bind fun he => ?_
  rw [Mirrors, get_bind, get_bind, e.unmarkedLabels_buffer, ← e.buffer_finish he]
  have hregions : e.buffer.regions = e.regions := rfl
  rw [hregions]
  split
  · rfl
  · cases e.unmarkedLabels.head? <;> rfl

end Mirrors

inductive EmitterCall
  | emit (i : Instr Label)
  | emitOpcode (op : Opcode)
  | emitBranch (op : Opcode) (l : Label)
  | emitBox (kind : ValueKind)
  | emitUnbox (kind : ValueKind)
  | declareLocal (name : String)
  | defineLabel
  | markLabel (l : Label)
  | beginTry
  | beginCatch (tag : TypeTag)
  | endTry
  | finish

def EmitterCall.perform : EmitterCall → EmitM Unit
  | .emit i => EmitM.emit i
  | .emitOpcode op => EmitM.emitOpcode op
  | .emitBranch op l => EmitM.emitBranch op l
  | .emitBox kind => EmitM.emitBox kind
  | .emitUnbox kind => EmitM.emitUnbox kind
  | .declareLocal name => discard <| EmitM.declareLocal name
  | .defineLabel => discard EmitM.defineLabel
  | .markLabel l => EmitM.markLabel l
  | .beginTry => discard EmitM.beginTry
  | .beginCatch tag => EmitM.beginCatch tag
  | .endTry => EmitM.endTry
  | .finish => discard EmitM.finish

/-- The emitter after the calls, of which some may fail, and the offsets at which it has emitted. -/
def emitAll : List EmitterCall → Emitter → Emitter × List Nat
  | [], e => (e, [])
  | call :: calls, e =>
    let e' := final (call.perform e)
    let (last, offsets) := emitAll calls e'
    (last, if e'.offset = e.offset then offsets else e.offset :: offsets)

def EmitterCall.write : EmitterCall → BufferM Unit
  | .emit i => BufferM.emit i
  | .emitOpcode op => BufferM.emitOpcode op
  | .emitBranch op l => BufferM.emitBranch op l
  | .emitBox kind => BufferM.emitBox kind
  | .emitUnbox kind => BufferM.emitUnbox kind
  | .declareLocal name => discard <| BufferM.declareLocal name
  | .defineLabel => discard BufferM.defineLabel
  | .markLabel l => BufferM.markLabel l
  | .beginTry => discard BufferM.beginTry
  | .beginCatch tag => BufferM.beginCatch tag
  | .endTry => BufferM.endTry
  | .finish => discard BufferM.finish

def writeAll : List EmitterCall → CodeBuffer → CodeBuffer × List Nat
  | [], b => (b, [])
  | call :: calls, b =>
    let b' := final (call.write b)
    let (last, offsets) := writeAll calls b'
    (last, if b'.offset = b.offset then offsets else b.offset :: offsets)

theorem EmitterCall.mirrors (call : EmitterCall) (e : Emitter) :
    Mirrors e call.perform call.write := by
  cases call with
  | emit i => exact .emit i
  | emitOpcode op => exact .emitOpcode op
  | emitBranch op l =>
    cases op with
    | branch test => exact .emit (.branch test l)
    | _ => rfl
  | emitBox kind => exact .emitKind kind _
  | emitUnbox kind => exact .emitKind kind _
  | declareLocal name => exact (Mirrors.declareLocal name).map fun _ => ()
  | defineLabel => rfl
  | markLabel l => exact .markLabel l
  | beginTry => exact Mirrors.beginTry.map fun _ => ()
  | beginCatch tag => exact .beginCatch tag
  | endTry => exact .endTry
  | finish => exact Mirrors.finish.map fun _ => ()

theorem final_buffered {α : Type} (r : EStateM.Result BuildError Emitter α) :
    final (buffered r) = (final r).buffer := by
  cases r <;> rfl

theorem writeAll_buffer (calls : List EmitterCall) (e : Emitter) :
    writeAll calls e.buffer = ((emitAll calls e).1.buffer, (emitAll calls e).2) := by
  induction calls generalizing e with
  | nil => rfl
  | cons call calls ih =>
    have hcall : final (call.write e.buffer) = (final (call.perform e)).buffer := by
      rw [call.mirrors e, final_buffered]
    rw [writeAll, emitAll]
    dsimp only
    rw [hcall, ih, Emitter.offset_buffer, Emitter.offset_buffer]

end Bytesmith.Build

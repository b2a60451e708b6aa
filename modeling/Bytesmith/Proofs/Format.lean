import Mathlib.Data.List.Nodup
import Mathlib.Tactic.MkIffOfInductiveProp
import Bytesmith.Code.Format
import Bytesmith.Proofs.Outcome
import Bytesmith.Proofs.Reads

namespace Bytesmith.Code

open Wire

namespace ValueKind

theorem reads (kind : ValueKind) : Reads decode kind.encode kind := by
  refine Reads.position fun offset => (Reads.u8 kind.toByte).andThen ?_
  cases kind <;> exact Reads.pure _

end ValueKind

namespace TypeTag

theorem reads (tag : TypeTag) : Reads decode tag.encode tag := by
  refine Reads.position fun offset => ?_
  cases tag with
  | object => exact (Reads.u8 0).bind ((Reads.u32 0).andThen (Reads.pure _))
  | string => exact (Reads.u8 1).bind ((Reads.u32 0).andThen (Reads.pure _))
  | «class» id => exact (Reads.u8 2).bind ((Reads.u32 id).andThen (Reads.pure _))

end TypeTag

namespace ModuleKind

theorem reads (kind : ModuleKind) : Reads decode kind.encode kind := by
  refine Reads.position fun offset => ?_
  cases kind with
  | library => exact (Reads.u8 0).andThen (Reads.pure _)
  | executable => exact (Reads.u8 1).andThen (Reads.pure _)

end ModuleKind

def TextFits (s : String) : Prop := (utf8 s).length < 2 ^ 32

instance (s : String) : Decidable (TextFits s) := inferInstanceAs (Decidable (_ < _))

namespace Handler

theorem reads (h : Handler) : Reads decode h.encode h := by
  simp only [encode, List.append_assoc]
  exact (Reads.u32 _).bind ((Reads.u32 _).bind ((Reads.u32 _).bind
    ((TypeTag.reads _).andThen (Reads.pure _))))

end Handler

namespace Function

@[mk_iff]
structure Encodable (f : Function) : Prop where
  name : TextFits f.name
  owner : f.owner ≠ some noIndex
  paramCount : f.paramCount < 2 ^ 32
  paramKinds : f.paramKinds.length < 2 ^ 32
  localCount : f.localCount < 2 ^ 32
  code : f.code.size < 2 ^ 32
  handlers : f.handlers.length < 2 ^ 32

instance (f : Function) : Decidable f.Encodable :=
  decidable_of_iff _ (encodable_iff f).symm

theorem list_u8 (bytes : List UInt8) : Wire.list u8 bytes = count bytes.length ++ bytes := by
  have h : bytes.flatMap u8 = bytes := List.flatMap_singleton' bytes
  rw [Wire.list, h]

theorem reads (f : Function) (h : f.Encodable) : Reads decode f.encode f := by
  simp only [encode, list_u8, List.append_assoc]
  have hkinds := Reads.list f.paramKinds h.paramKinds fun kind _ => kind.reads
  have hhandlers := Reads.list f.handlers h.handlers fun handler _ => handler.reads
  have hcode : f.code.toList.length < 2 ^ 32 := h.code
  exact (Reads.text _ h.name).bind ((Reads.index _ h.owner).bind ((Reads.u32 _).bind
    ((Reads.count _ h.paramCount).bind (hkinds.bind ((Reads.count _ h.localCount).bind
      ((Reads.count _ hcode).bind ((Reads.take _).bind (hhandlers.andThen (Reads.pure _)))))))))

end Function

namespace MethodEntry

theorem reads (m : MethodEntry) (h : TextFits m.name) : Reads decode m.encode m :=
  (Reads.text _ h).bind ((Reads.u32 _).andThen (Reads.pure _))

end MethodEntry

namespace PropertyEntry

@[mk_iff]
structure Encodable (p : PropertyEntry) : Prop where
  name : TextFits p.name
  getter : p.getter ≠ some noIndex
  setter : p.setter ≠ some noIndex

instance (p : PropertyEntry) : Decidable p.Encodable :=
  decidable_of_iff _ (encodable_iff p).symm

theorem reads (p : PropertyEntry) (h : p.Encodable) : Reads decode p.encode p := by
  simp only [encode, List.append_assoc]
  exact (Reads.text _ h.name).bind ((Reads.index _ h.getter).bind
    ((Reads.index _ h.setter).andThen (Reads.pure _)))

end PropertyEntry

namespace ClassEntry

@[mk_iff]
structure Encodable (c : ClassEntry) : Prop where
  name : TextFits c.name
  parent : c.parent ≠ some noIndex
  interfaces : c.interfaces.length < 2 ^ 32
  fields : c.fields.length < 2 ^ 32
  methods : c.methods.length < 2 ^ 32
  methodNames : ∀ m ∈ c.methods, TextFits m.name
  constructors : c.constructors.length < 2 ^ 32
  properties : c.properties.length < 2 ^ 32
  eachProperty : ∀ p ∈ c.properties, p.Encodable

instance (c : ClassEntry) : Decidable c.Encodable :=
  decidable_of_iff _ (encodable_iff c).symm

theorem flags_eq (c : ClassEntry) :
    (c.flags &&& 1 != 0) = c.isInterface ∧ (c.flags &&& 2 != 0) = c.isAbstract := by
  unfold flags
  cases c.isInterface <;> cases c.isAbstract <;> decide

theorem reads (c : ClassEntry) (h : c.Encodable) : Reads decode c.encode c := by
  simp only [encode, List.append_assoc]
  have hinterfaces := Reads.list c.interfaces h.interfaces fun i _ => Reads.u32 i
  have hfields := Reads.list c.fields h.fields fun i _ => Reads.u32 i
  have hmethods := Reads.list c.methods h.methods fun m hm => m.reads (h.methodNames m hm)
  have hconstructors := Reads.list c.constructors h.constructors fun i _ => Reads.u32 i
  have hproperties := Reads.list c.properties h.properties fun p hp => p.reads (h.eachProperty p hp)
  refine (Reads.text _ h.name).bind ((Reads.index _ h.parent).bind ((Reads.u8 _).bind
    (hinterfaces.bind (hfields.bind (hmethods.bind (hconstructors.bind
      (hproperties.andThen ?_)))))))
  rw [c.flags_eq.1, c.flags_eq.2]
  exact Reads.pure _

end ClassEntry

namespace FieldEntry

theorem reads (f : FieldEntry) (h : TextFits f.name) : Reads decode f.encode f := by
  simp only [encode, List.append_assoc]
  refine (Reads.text _ h).bind ((Reads.u32 _).bind ((ValueKind.reads _).bind
    ((Reads.u8 _).andThen ?_)))
  have hs : ((if f.isStatic then 1 else 0 : UInt8) != 0) = f.isStatic := by
    cases f.isStatic <;> decide
  rw [hs]
  exact Reads.pure _

end FieldEntry

namespace EnumTable

@[mk_iff]
structure Encodable (e : EnumTable) : Prop where
  name : TextFits e.name
  members : e.members.length < 2 ^ 32
  memberNames : ∀ m ∈ e.members, TextFits m.1

instance (e : EnumTable) : Decidable e.Encodable :=
  decidable_of_iff _ (encodable_iff e).symm

theorem reads_member (m : String × Int32) (h : TextFits m.1) :
    Reads decodeMember (encodeMember m) m :=
  (Reads.text _ h).bind ((Reads.i32 _).andThen (Reads.pure _))

theorem reads (e : EnumTable) (h : e.Encodable) : Reads decode e.encode e := by
  have hmembers := Reads.list e.members h.members fun m hm => reads_member m (h.memberNames m hm)
  exact (Reads.text _ h.name).bind (hmembers.andThen (Reads.pure _))

end EnumTable

namespace Pool

theorem insert_strings (p : Pool) (s : String) :
    (p.insert s).strings = if s ∈ p.strings then p.strings else p.strings ++ [s] := by
  unfold insert add
  cases h : p.strings.idxOf? s with
  | none =>
    have hs : s ∉ p.strings := List.idxOf?_eq_none_iff.mp h
    simp [hs]
  | some i =>
    have hs : s ∈ p.strings := by
      rw [← List.isSome_idxOf?, h]
      rfl
    simp [hs]

theorem nodup_insert (p : Pool) (s : String) (h : p.strings.Nodup) :
    (p.insert s).strings.Nodup := by
  rw [insert_strings]
  by_cases hs : s ∈ p.strings
  · simpa only [hs, if_true] using h
  · simp only [hs, if_false]
    simpa only [List.concat_eq_append] using List.Nodup.concat hs h

theorem nodup_foldl_insert (strings : List String) (p : Pool) (h : p.strings.Nodup) :
    (strings.foldl insert p).strings.Nodup := by
  induction strings generalizing p with
  | nil => exact h
  | cons s strings ih => exact ih (p.insert s) (nodup_insert p s h)

theorem foldl_insert_of_nodup (strings : List String) (p : Pool)
    (h : (p.strings ++ strings).Nodup) :
    (strings.foldl insert p).strings = p.strings ++ strings := by
  induction strings generalizing p with
  | nil => simp
  | cons s strings ih =>
    have hs : s ∉ p.strings := fun hm => (List.disjoint_of_nodup_append h hm) (.head _)
    have hi : (p.insert s).strings = p.strings ++ [s] := by
      rw [insert_strings, if_neg hs]
    have hn : ((p.insert s).strings ++ strings).Nodup := by
      rwa [hi, List.append_assoc, List.singleton_append]
    rw [List.foldl_cons, ih _ hn, hi, List.append_assoc, List.singleton_append]

theorem ofList_strings (strings : List String) :
    ofList (ofList strings).strings = ofList strings := by
  have hn : (ofList strings).strings.Nodup := nodup_foldl_insert strings empty List.nodup_nil
  have h := foldl_insert_of_nodup (ofList strings).strings empty (by simpa [empty] using hn)
  exact congrArg Pool.mk h

structure Encodable (p : Pool) : Prop where
  built : ∃ strings, p = ofList strings
  size : p.size < 2 ^ 32
  each : ∀ s ∈ p.strings, TextFits s

theorem reads (p : Pool) (h : p.Encodable) : Reads decode p.encode p := by
  have hr := (Reads.list p.strings h.size fun s hs => Reads.text s (h.each s hs)).map ofList
  obtain ⟨strings, rfl⟩ := h.built
  rw [ofList_strings] at hr
  exact hr

end Pool

namespace Module

structure Encodable (m : Module) : Prop where
  magic : m.magic = standardMagic
  version : m.version = currentVersion
  name : TextFits m.name
  entryPoint : m.entryPoint ≠ some noIndex
  constants : m.constants.Encodable
  functions : m.functions.length < 2 ^ 32
  eachFunction : ∀ f ∈ m.functions, f.Encodable
  classes : m.classes.length < 2 ^ 32
  eachClass : ∀ c ∈ m.classes, c.Encodable
  fields : m.fields.length < 2 ^ 32
  fieldNames : ∀ f ∈ m.fields, TextFits f.name
  enums : m.enums.length < 2 ^ 32
  eachEnum : ∀ e ∈ m.enums, e.Encodable
  listing : ∀ s, m.listing = some s → TextFits s

theorem reads_payload (m : Module) (h : m.Encodable) (header : Header)
    (hflag : (header.flags &&& listingFlag != 0) = m.listing.isSome) :
    Reads (decodePayload header) m.payload
      { m with
        magic := header.magic
        version := header.version
        flags := header.flags
        checksum := header.hash } := by
  have hfunctions := Reads.list m.functions h.functions fun f hf => f.reads (h.eachFunction f hf)
  have hclasses := Reads.list m.classes h.classes fun c hc => c.reads (h.eachClass c hc)
  have hfields := Reads.list m.fields h.fields fun f hf => f.reads (h.fieldNames f hf)
  have henums := Reads.list m.enums h.enums fun e he => e.reads (h.eachEnum e he)
  simp only [payload, List.append_assoc]
  refine (Reads.text _ h.name).bind ((ModuleKind.reads _).bind ((Reads.index _ h.entryPoint).bind
    ((Pool.reads _ h.constants).bind (hfunctions.bind (hclasses.bind (hfields.bind (henums.bind
      ?_)))))))
  cases hl : m.listing with
  | none =>
    simp only [hflag, hl, Option.isSome_none, Bool.false_eq_true, if_false]
    exact (Reads.pure none).bind (Reads.pure _)
  | some s =>
    simp only [hflag, hl, Option.isSome_some, if_true]
    exact ((Reads.text s (h.listing s hl)).map some).andThen (Reads.pure _)

theorem writtenFlags_listing (m : Module) :
    (m.writtenFlags &&& listingFlag != 0) = m.listing.isSome := by
  unfold writtenFlags listingFlag
  cases m.listing with
  | none =>
    simp only [Option.isSome_none, Bool.false_eq_true, if_false]
    rw [UInt32.and_assoc, UInt32.not_and_self, UInt32.and_zero]
    rfl
  | some s =>
    have h : (m.flags ||| 1) &&& 1 = 1 := by
      apply UInt32.toBitVec_inj.1
      ext i
      simp +contextual
    simp only [Option.isSome_some, if_true]
    rw [h]
    rfl

theorem writtenFlags_others (m : Module) :
    m.writtenFlags &&& ~~~ listingFlag = m.flags &&& ~~~ listingFlag := by
  unfold writtenFlags listingFlag
  cases m.listing with
  | none =>
    simp only [Option.isSome_none, Bool.false_eq_true, if_false]
    rw [UInt32.and_assoc, UInt32.and_self]
  | some s =>
    simp only [Option.isSome_some, if_true]
    apply UInt32.toBitVec_inj.1
    ext i
    by_cases h : i = 0 <;> simp [h]

theorem reading_bind {α β : Type} {read : ReadM α} {bytes : List UInt8} {a : α}
    (h : Reads read bytes a) (f : α → LoadM β) (before after : List UInt8) :
    (reading read >>= f) (.between before (bytes ++ after)) =
      f a (.between (before ++ bytes) after) := by
  change EStateM.bind (reading read) f _ = _
  simp only [EStateM.bind, reading, h before after]

theorem sha256_length (bytes : List UInt8) : (Digest.sha256 bytes).length = 32 := by
  simp [Digest.sha256, Digest.bigEndianBytes, Digest.HashState.words]

theorem decodeHeader_between (flags crc : UInt32) (hash contents : List UInt8)
    (hhash : hash.length = 32) :
    decodeHeader (.between [] (standardMagic ++ (u32 currentVersion ++ (u32 flags ++ (u32 crc ++
      (hash ++ contents)))))) =
      .ok ⟨standardMagic, currentVersion, flags, crc, hash⟩
        (.between (standardMagic ++ u32 currentVersion ++ u32 flags ++ u32 crc ++ hash) contents) := by
  have hmagic : Reads (ReadM.take 4) standardMagic standardMagic := Reads.take standardMagic
  have htake : Reads (ReadM.take 32) hash hash := by
    rw [← hhash]
    exact Reads.take hash
  unfold decodeHeader
  rw [reading_bind hmagic]
  simp only [ne_eq, not_true_eq_false, if_false]
  rw [reading_bind (Reads.u32 _)]
  simp only [not_true_eq_false, if_false]
  rw [reading_bind (Reads.u32 _), reading_bind (Reads.u32 _), reading_bind htake]
  rfl

theorem drop_header (m : Module) (h : m.magic = standardMagic) :
    m.encode.drop headerSize = m.payload := by
  have hlen : (m.magic ++ u32 m.version ++ u32 m.writtenFlags ++ u32 (Digest.crc32 m.payload) ++
      Digest.sha256 m.payload).length = headerSize := by
    simp only [List.length_append, h, u32, littleEndian_length, sha256_length]
    rfl
  rw [← hlen]
  exact List.drop_left

theorem verify_self (flags : UInt32) (contents : List UInt8) :
    verify ⟨standardMagic, currentVersion, flags, Digest.crc32 contents, Digest.sha256 contents⟩
      contents = .ok () := by
  simp [verify]

/-- Reading what was written gives the module back. The flag of the listing is set exactly when
there is one, the other flags stay, and the checksum is that of the contents as they are in the
file. -/
theorem decode_encode_of_encodable (m : Module) (h : m.Encodable) :
    ∃ flags,
      decode m.encode.toArray = .ok { m with
        flags := flags
        checksum := Digest.sha256 (m.encode.drop headerSize) } ∧
      (flags &&& listingFlag != 0) = m.listing.isSome ∧
      flags &&& ~~~ listingFlag = m.flags &&& ~~~ listingFlag := by
  refine ⟨m.writtenFlags, ?_, m.writtenFlags_listing, m.writtenFlags_others⟩
  have hcontents := m.drop_header h.magic
  have hencode : m.encode = standardMagic ++ (u32 currentVersion ++ (u32 m.writtenFlags ++
      (u32 (Digest.crc32 m.payload) ++ (Digest.sha256 m.payload ++ m.payload)))) := by
    simp only [encode, h.magic, h.version, List.append_assoc]
  have hheader := decodeHeader_between m.writtenFlags (Digest.crc32 m.payload)
    (Digest.sha256 m.payload) m.payload (sha256_length _)
  have hdata : (Reader.between (standardMagic ++ u32 currentVersion ++ u32 m.writtenFlags ++
      u32 (Digest.crc32 m.payload) ++ Digest.sha256 m.payload) m.payload).data.toList =
      m.encode := by
    simp only [Reader.between, hencode, List.append_assoc]
  have hpayload := m.reads_payload h ⟨standardMagic, currentVersion, m.writtenFlags,
    Digest.crc32 m.payload, Digest.sha256 m.payload⟩ m.writtenFlags_listing
    (standardMagic ++ u32 currentVersion ++ u32 m.writtenFlags ++
      u32 (Digest.crc32 m.payload) ++ Digest.sha256 m.payload) []
  rw [List.append_nil] at hpayload
  have hload : load (.ofArray m.encode.toArray) = .ok { m with
      magic := standardMagic
      version := currentVersion
      flags := m.writtenFlags
      checksum := Digest.sha256 m.payload } (.between (standardMagic ++ u32 currentVersion ++
        u32 m.writtenFlags ++ u32 (Digest.crc32 m.payload) ++ Digest.sha256 m.payload ++
        m.payload) []) := by
    change EStateM.bind decodeHeader _ (.between [] m.encode) = _
    rw [EStateM.bind, hencode, hheader]
    dsimp only
    rw [Outcome.get_bind, hdata, hcontents, verify_self]
    simp only [reading, hpayload]
  rw [decode, hload, hcontents, ← h.magic, ← h.version]

def specimen : Module where
  magic := standardMagic
  version := currentVersion
  flags := 6
  name := "größe"
  kind := .executable
  entryPoint := some 0
  constants := .ofList ["a", "", "a", "ß"]
  functions := [
    ⟨"main", some 1, 9, 1, [.i32, .reference], 3, #[0x04, 0xA2],
      [⟨0, 1, 1, .class 0⟩, ⟨0, 1, 1, .string⟩]⟩,
    ⟨"free", none, 1, 0, [], 0, #[0xA3], []⟩]
  classes := [
    ⟨"Shape", none, [], true, true, [], [⟨"area", 1⟩], [], []⟩,
    ⟨"Square", some 0, [0], false, true, [0], [], [0], [⟨"Side", some 0, none⟩]⟩]
  fields := [⟨"side", 1, .f64, false⟩, ⟨"count", 1, .i64, true⟩]
  enums := [⟨"Color", [("Red", -1), ("Green", 2147483647)]⟩]
  listing := some "class Shape"
  checksum := []

theorem specimen_encodable : specimen.Encodable where
  magic := rfl
  version := rfl
  name := by decide
  entryPoint := by decide
  constants := ⟨⟨_, rfl⟩, by decide, by decide⟩
  functions := by decide
  eachFunction := by decide
  classes := by decide
  eachClass := by decide
  fields := by decide
  fieldNames := by decide
  enums := by decide
  eachEnum := by decide
  listing := by
    intro s hs
    cases hs
    decide

theorem decode_encode_specimen :
    specimen.Encodable ∧ ∃ flags,
      decode specimen.encode.toArray = .ok { specimen with
        flags := flags
        checksum := Digest.sha256 (specimen.encode.drop headerSize) } ∧
      (flags &&& listingFlag != 0) = specimen.listing.isSome ∧
      flags &&& ~~~ listingFlag = specimen.flags &&& ~~~ listingFlag :=
  ⟨specimen_encodable, decode_encode_of_encodable specimen specimen_encodable⟩

end Module

end Bytesmith.Code

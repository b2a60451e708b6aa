import Bytesmith.Proofs.Loading

namespace Bytesmith.Wire

def indexAsRead (i : Option UInt32) : Option UInt32 := i.filter (· != noIndex)

theorem index_indexAsRead (i : Option UInt32) : index (indexAsRead i) = index i := by
  cases i with
  | none => rfl
  | some i =>
    by_cases h : i = noIndex
    · subst h
      rfl
    · simp [indexAsRead, Option.filter, h]

theorem indexAsRead_ne (i : Option UInt32) : indexAsRead i ≠ some noIndex := by
  intro h
  have hne := (Option.filter_eq_some_iff.mp h).2
  simp at hne

theorem list_map {α : Type} {encode : α → List UInt8} {f : α → α}
    (h : ∀ x, encode (f x) = encode x) (xs : List α) :
    Wire.list encode (xs.map f) = Wire.list encode xs := by
  simp only [Wire.list, List.length_map, List.flatMap_map, h]

end Bytesmith.Wire

namespace Bytesmith.Code

open Wire

namespace Function

@[mk_iff]
structure Bounded (f : Function) : Prop where
  name : TextFits f.name
  paramCount : f.paramCount < 2 ^ 32
  paramKinds : f.paramKinds.length < 2 ^ 32
  localCount : f.localCount < 2 ^ 32
  code : f.code.size < 2 ^ 32
  handlers : f.handlers.length < 2 ^ 32

instance (f : Function) : Decidable f.Bounded := decidable_of_iff _ (bounded_iff f).symm

def asRead (f : Function) : Function := { f with owner := indexAsRead f.owner }

theorem encode_asRead (f : Function) : f.asRead.encode = f.encode := by
  simp only [encode, asRead, index_indexAsRead]

theorem Bounded.encodable {f : Function} (h : f.Bounded) : f.asRead.Encodable :=
  ⟨h.name, indexAsRead_ne _, h.paramCount, h.paramKinds, h.localCount, h.code, h.handlers⟩

end Function

namespace PropertyEntry

def asRead (p : PropertyEntry) : PropertyEntry :=
  { p with getter := indexAsRead p.getter, setter := indexAsRead p.setter }

theorem encode_asRead (p : PropertyEntry) : p.asRead.encode = p.encode := by
  simp only [encode, asRead, index_indexAsRead]

end PropertyEntry

namespace ClassEntry

@[mk_iff]
structure Bounded (c : ClassEntry) : Prop where
  name : TextFits c.name
  interfaces : c.interfaces.length < 2 ^ 32
  fields : c.fields.length < 2 ^ 32
  methods : c.methods.length < 2 ^ 32
  methodNames : ∀ m ∈ c.methods, TextFits m.name
  constructors : c.constructors.length < 2 ^ 32
  properties : c.properties.length < 2 ^ 32
  propertyNames : ∀ p ∈ c.properties, TextFits p.name

instance (c : ClassEntry) : Decidable c.Bounded := decidable_of_iff _ (bounded_iff c).symm

def asRead (c : ClassEntry) : ClassEntry :=
  { c with parent := indexAsRead c.parent, properties := c.properties.map PropertyEntry.asRead }

theorem encode_asRead (c : ClassEntry) : c.asRead.encode = c.encode := by
  have hflags : c.asRead.flags = c.flags := rfl
  unfold encode
  rw [hflags]
  simp only [asRead, index_indexAsRead, list_map PropertyEntry.encode_asRead]

theorem Bounded.encodable {c : ClassEntry} (h : c.Bounded) : c.asRead.Encodable where
  name := h.name
  parent := indexAsRead_ne _
  interfaces := h.interfaces
  fields := h.fields
  methods := h.methods
  methodNames := h.methodNames
  constructors := h.constructors
  properties := lt_of_eq_of_lt (List.length_map _) h.properties
  eachProperty := List.forall_mem_map.mpr fun p hp =>
    ⟨h.propertyNames p hp, indexAsRead_ne _, indexAsRead_ne _⟩

end ClassEntry

namespace Module

/-- Magic and version are right, and the counts and lengths fit their four bytes. Indices may be
any. -/
structure Bounded (m : Module) : Prop where
  magic : m.magic = standardMagic
  version : m.version = currentVersion
  name : TextFits m.name
  constants : m.constants.Encodable
  functions : m.functions.length < 2 ^ 32
  eachFunction : ∀ f ∈ m.functions, f.Bounded
  classes : m.classes.length < 2 ^ 32
  eachClass : ∀ c ∈ m.classes, c.Bounded
  fields : m.fields.length < 2 ^ 32
  fieldNames : ∀ f ∈ m.fields, TextFits f.name
  enums : m.enums.length < 2 ^ 32
  eachEnum : ∀ e ∈ m.enums, e.Encodable
  listing : ∀ s, m.listing = some s → TextFits s

def asRead (m : Module) : Module :=
  { m with
    entryPoint := indexAsRead m.entryPoint
    functions := m.functions.map Function.asRead
    classes := m.classes.map ClassEntry.asRead }

theorem payload_asRead (m : Module) : m.asRead.payload = m.payload := by
  simp only [payload, asRead, index_indexAsRead, list_map Function.encode_asRead,
    list_map ClassEntry.encode_asRead]

theorem Bounded.encodable {m : Module} (h : m.Bounded) : m.asRead.Encodable where
  magic := h.magic
  version := h.version
  name := h.name
  entryPoint := indexAsRead_ne _
  constants := h.constants
  functions := lt_of_eq_of_lt (List.length_map _) h.functions
  eachFunction := List.forall_mem_map.mpr fun f hf => (h.eachFunction f hf).encodable
  classes := lt_of_eq_of_lt (List.length_map _) h.classes
  eachClass := List.forall_mem_map.mpr fun c hc => (h.eachClass c hc).encodable
  fields := h.fields
  fieldNames := h.fieldNames
  enums := h.enums
  eachEnum := h.eachEnum
  listing := h.listing

theorem decodePayload_of_part {m : Module} (h : m.Bounded) (header : Header)
    (hflags : header.flags = m.writtenFlags) {part : List UInt8} (hpart : part <+: m.payload)
    (hne : part ≠ m.payload) (before : List UInt8) :
    ∃ offset needed r,
      decodePayload header (.between before part) = .error (.unexpectedEof offset needed) r := by
  have hflag : (header.flags &&& listingFlag != 0) = m.asRead.listing.isSome := by
    rw [hflags]
    exact m.writtenFlags_listing
  have hreads := m.asRead.reads_payload h.encodable header hflag
  rw [payload_asRead] at hreads
  exact (takes_decodePayload header).truncated hreads hpart hne before

theorem part_of_append {before contents part : List UInt8} (h : part <+: before ++ contents)
    (hne : part ≠ before ++ contents) (hlen : before.length ≤ part.length) :
    ∃ rest, part = before ++ rest ∧ rest <+: contents ∧ rest ≠ contents := by
  have hbefore : before <+: part :=
    List.prefix_of_prefix_length_le (List.prefix_append before contents) h hlen
  obtain ⟨rest, rfl⟩ := hbefore
  exact ⟨rest, rfl, (List.prefix_append_right_inj before).mp h, fun heq => hne (by rw [heq])⟩

/-- A part of a file is refused, and a part of the contents leaves the reader without bytes,
whatever the digests say. -/
theorem part_refused (m : Module) (h : m.Bounded) :
    (∀ part, part <+: m.encode → part ≠ m.encode → ∃ e, decode part.toArray = .error e) ∧
    ∀ header : Header, header.flags = m.writtenFlags → ∀ before part, part <+: m.payload →
      part ≠ m.payload → ∃ offset needed r,
        decodePayload header (.between before part) = .error (.unexpectedEof offset needed) r := by
  refine ⟨fun part hpart hne => ?_, fun header hflags before part hpart hne =>
    decodePayload_of_part h header hflags hpart hne before⟩
  cases hdecode : decode part.toArray with
  | error e => exact ⟨e, rfl⟩
  | ok m' =>
    rw [m.encode_eq h.magic h.version] at hpart hne
    have hs := Header.sized_over m.writtenFlags m.payload
    have hlen : headerSize ≤ part.length := headerSize_le_of_decodeBy hdecode
    rw [← Header.bytes_length hs] at hlen
    obtain ⟨rest, rfl, hrest, hne⟩ := part_of_append hpart hne hlen
    obtain ⟨offset, needed, r, hr⟩ := decodePayload_of_part h
      (Header.over m.writtenFlags m.payload) rfl hrest hne _
    rw [← decodeBy_sha256, decodeBy_bytes _ hs, hr] at hdecode
    simp only [Header.over, ne_eq, not_true_eq_false, if_false] at hdecode
    split at hdecode <;> cases hdecode

/-- The specimen with an entry point that is read back as none. -/
def misdirected : Module := { specimen with entryPoint := some noIndex }

theorem misdirected_bounded : misdirected.Bounded :=
  { specimen_encodable with eachFunction := by decide, eachClass := by decide }

theorem part_refused_misdirected : misdirected.Bounded ∧
    (∃ e, decode misdirected.encode.dropLast.toArray = .error e) ∧
    ∃ offset needed r, decodePayload (Header.over misdirected.writtenFlags misdirected.payload)
      (.between [] misdirected.payload.dropLast) = .error (.unexpectedEof offset needed) r := by
  obtain ⟨hfile, hcontents⟩ := part_refused misdirected misdirected_bounded
  have hcut : ∀ bytes : List UInt8, bytes ≠ [] → bytes.dropLast ≠ bytes := by
    intro bytes hne heq
    have hlength := congrArg List.length heq
    have hpos := List.length_pos_iff.mpr hne
    rw [List.length_dropLast] at hlength
    omega
  have hpayload : misdirected.payload ≠ [] := nofun
  have hencode : misdirected.encode ≠ [] := nofun
  exact ⟨misdirected_bounded, hfile _ (List.dropLast_prefix _) (hcut _ hencode),
    hcontents _ rfl [] _ (List.dropLast_prefix _) (hcut _ hpayload)⟩

end Module

end Bytesmith.Code

import Bytesmith.Proofs.Loading

namespace Bytesmith.Wire

theorem Takes.agree {α : Type} {x : ReadM α} (hx : Takes x) {before₁ before₂ bytes : List UInt8}
    (hlen : before₁.length = before₂.length) {a₁ a₂ : α} {r₁ r₂ : Reader}
    (h₁ : x (.between before₁ bytes) = .ok a₁ r₁) (h₂ : x (.between before₂ bytes) = .ok a₂ r₂) :
    a₁ = a₂ ∧ ∃ used rest, bytes = used ++ rest ∧ r₁ = .between (before₁ ++ used) rest ∧
      r₂ = .between (before₂ ++ used) rest := by
  obtain ⟨used, rest, rfl, hr₁, hall⟩ := hx.split h₁
  have h := hall before₂ rest hlen.symm
  rw [h₂] at h
  cases h
  exact ⟨rfl, used, rest, rfl, hr₁, rfl⟩

end Bytesmith.Wire

namespace Bytesmith.Code.Module

open Wire Outcome

theorem isSome_of_decodeListing {announced : Bool} {listing : Option String} {r r' : Reader}
    (h : decodeListing announced r = .ok listing r') : listing.isSome = announced := by
  cases announced with
  | false =>
    cases h
    rfl
  | true =>
    obtain ⟨s, -, rfl⟩ := map_eq_ok.mp h
    rfl

theorem decodePayload_agree {h₁ h₂ : Header} (hs₁ : h₁.Sized) (hs₂ : h₂.Sized)
    {contents : List UInt8} {m₁ m₂ : Module} {r₁ r₂ : Reader}
    (hm₁ : decodePayload h₁ (.between h₁.bytes contents) = .ok m₁ r₁)
    (hm₂ : decodePayload h₂ (.between h₂.bytes contents) = .ok m₂ r₂) :
    ∃ tables listing₁ listing₂, m₁ = withHeader tables h₁ listing₁ ∧
      m₂ = withHeader tables h₂ listing₂ ∧
      listing₁.isSome = announcesListing h₁.flags ∧ listing₂.isSome = announcesListing h₂.flags ∧
      (announcesListing h₁.flags = announcesListing h₂.flags → listing₁ = listing₂) := by
  rw [decodePayload_eq] at hm₁ hm₂
  obtain ⟨tables, t₁, htables₁, hm₁⟩ := bind_eq_ok.mp hm₁
  obtain ⟨listing₁, u₁, hlisting₁, hm₁⟩ := bind_eq_ok.mp hm₁
  obtain ⟨tables', t₂, htables₂, hm₂⟩ := bind_eq_ok.mp hm₂
  obtain ⟨listing₂, u₂, hlisting₂, hm₂⟩ := bind_eq_ok.mp hm₂
  cases hm₁
  cases hm₂
  have hlen : h₁.bytes.length = h₂.bytes.length := by
    rw [Header.bytes_length hs₁, Header.bytes_length hs₂]
  obtain ⟨rfl, used, rest, rfl, rfl, rfl⟩ := takes_decodeTables.agree hlen htables₁ htables₂
  refine ⟨tables, listing₁, listing₂, rfl, rfl, isSome_of_decodeListing hlisting₁,
    isSome_of_decodeListing hlisting₂, fun hflags => ?_⟩
  have hlen' : (h₁.bytes ++ used).length = (h₂.bytes ++ used).length := by
    rw [List.length_append, List.length_append, hlen]
  rw [← hflags] at hlisting₂
  exact ((takes_decodeListing _).agree hlen' hlisting₁ hlisting₂).1

/-- Accepted files with the same contents hold the same module, up to the flags, which are those of
each file, and the listing, which is there when the flags say so. -/
theorem determined_up_to_flags {data₁ data₂ : Array UInt8} {m₁ m₂ : Module}
    (h₁ : decode data₁ = .ok m₁) (h₂ : decode data₂ = .ok m₂)
    (hcontents : data₁.toList.drop headerSize = data₂.toList.drop headerSize) :
    m₂ = { m₁ with flags := m₂.flags, listing := m₂.listing } ∧
      m₁.flags = (Header.ofBytes data₁.toList).flags ∧
      m₂.flags = (Header.ofBytes data₂.toList).flags ∧
      m₁.listing.isSome = announcesListing m₁.flags ∧
      m₂.listing.isSome = announcesListing m₂.flags ∧
      (m₁.listing = m₂.listing ↔ announcesListing m₁.flags = announcesListing m₂.flags) ∧
      (m₁ = m₂ ↔ m₁.flags = m₂.flags) := by
  have ha₁ := accepts_of_decodeBy h₁
  have ha₂ := accepts_of_decodeBy h₂
  rw [← hcontents] at ha₂
  obtain ⟨r₁, hr₁⟩ := ha₁.read
  obtain ⟨r₂, hr₂⟩ := ha₂.read
  obtain ⟨tables, listing₁, listing₂, rfl, rfl, hsome₁, hsome₂, hagree⟩ :=
    decodePayload_agree ha₁.sized ha₂.sized hr₁ hr₂
  have hmagic := ha₁.magic.trans ha₂.magic.symm
  have hversion := ha₁.version.trans ha₂.version.symm
  have hhash := ha₁.hash.trans ha₂.hash.symm
  have hlisting : listing₁ = listing₂ ↔ announcesListing (Header.ofBytes data₁.toList).flags =
      announcesListing (Header.ofBytes data₂.toList).flags :=
    ⟨fun h => by rw [← hsome₁, ← hsome₂, h], hagree⟩
  refine ⟨?_, rfl, rfl, hsome₁, hsome₂, hlisting, fun h => congrArg flags h, fun hflags => ?_⟩
  · simp only [withHeader, hmagic, hversion, hhash]
  · have hflags : (Header.ofBytes data₁.toList).flags =
        (Header.ofBytes data₂.toList).flags := hflags
    have hl : listing₁ = listing₂ := hagree (congrArg announcesListing hflags)
    simp only [withHeader, hmagic, hversion, hhash, hflags, hl]

def underFlags (m : Module) (flags : UInt32) : Array UInt8 :=
  ((Header.over flags m.payload).bytes ++ m.payload).toArray

theorem drop_underFlags (m : Module) (flags : UInt32) :
    (m.underFlags flags).toList.drop headerSize = m.payload := by
  rw [← Header.bytes_length (Header.sized_over flags m.payload)]
  exact List.drop_left

theorem payload_of_listing {m : Module} {s : String} (h : m.listing = some s) :
    m.payload = { m with listing := none }.payload ++ text s := by
  simp only [payload, h, Option.map_none, Option.map_some, Option.getD_none, Option.getD_some,
    List.append_nil]

theorem decode_underFlags {m : Module} (h : m.Encodable) {s : String} (hs : m.listing = some s)
    (flags : UInt32) :
    decode (m.underFlags flags) = .ok { m with
      flags := flags
      listing := if announcesListing flags then some s else none
      checksum := Digest.sha256 m.payload } := by
  rw [← decodeBy_sha256, underFlags]
  cases hflags : announcesListing flags with
  | true =>
    have hflag : (flags &&& listingFlag != 0) = m.listing.isSome := by
      rw [hs]
      exact hflags
    have ha := m.accepts_payload h flags hflag []
    rw [List.append_nil] at ha
    simpa only [hs, if_true] using ha.decodeBy
  | false =>
    have hsilent : { m with listing := none }.Encodable := { h with listing := nofun }
    have ha := accepts_payload _ hsilent flags hflags (text s)
    rw [← payload_of_listing hs] at ha
    simpa only [Bool.false_eq_true, if_false] using ha.decodeBy

theorem determined_specimen : ∃ m₁ m₂,
    decode (specimen.underFlags 7) = .ok m₁ ∧ decode (specimen.underFlags 6) = .ok m₂ ∧
      m₂ = { m₁ with flags := m₂.flags, listing := m₂.listing } ∧
      (m₁.listing = m₂.listing ↔ announcesListing m₁.flags = announcesListing m₂.flags) := by
  have h₁ := decode_underFlags specimen_encodable rfl 7
  have h₂ := decode_underFlags specimen_encodable rfl 6
  have hd := determined_up_to_flags h₁ h₂ (by rw [drop_underFlags, drop_underFlags])
  exact ⟨_, _, h₁, h₂, hd.1, hd.2.2.2.2.2.1⟩

/-- The same contents under three headers: as written, with the flag of the listing cleared, and
with another flag cleared. The first two differ in the listing, and each two differ in the flags. -/
theorem contents_alone_undetermined : ∃ m₁ m₂ m₃,
    decode (specimen.underFlags 7) = .ok m₁ ∧ decode (specimen.underFlags 6) = .ok m₂ ∧
      decode (specimen.underFlags 3) = .ok m₃ ∧
      (specimen.underFlags 7).toList.drop headerSize =
        (specimen.underFlags 6).toList.drop headerSize ∧
      (specimen.underFlags 7).toList.drop headerSize =
        (specimen.underFlags 3).toList.drop headerSize ∧
      m₁.listing ≠ m₂.listing ∧ m₁.flags ≠ m₂.flags ∧
      m₁.listing = m₃.listing ∧ m₁.flags ≠ m₃.flags := by
  refine ⟨_, _, _, decode_underFlags specimen_encodable rfl 7,
    decode_underFlags specimen_encodable rfl 6, decode_underFlags specimen_encodable rfl 3,
    by rw [drop_underFlags, drop_underFlags], by rw [drop_underFlags, drop_underFlags],
    ?_, ?_, ?_, ?_⟩
  all_goals decide

end Bytesmith.Code.Module

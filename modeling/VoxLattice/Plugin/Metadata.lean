import VoxLattice.Lib.Utf8
import VoxLattice.Server.Service

/-!
# Stream metadata

The metadata of a stream starts as the configured mapping, follows the room the track is in, and
is cut to the limits of the protocol when a call starts.  A Python `dict` is the list of its
items: an assignment to a key that is present keeps its place.
-/

namespace VoxLattice.Plugin

open Utf8
open Server

/-- `truncate_utf8`, for a string. -/
def truncateUtf8 (value : String) (maxBytes : Nat) : String :=
  .ofList (decodeIgnore ((encode value.toList).take maxBytes))

/-- A `dict` of strings. -/
abbrev Metadata := List (String × String)

/-- `d[key] = value`. -/
def Metadata.set (key value : String) : Metadata → Metadata
  | [] => [(key, value)]
  | item :: rest => if item.1 = key then (key, value) :: rest else item :: set key value rest

/-- `d.pop(key, None)`. -/
def Metadata.pop (key : String) (d : Metadata) : Metadata := d.filter fun item => item.1 != key

/-- The update of `_on_stream_info_updated`. -/
def Metadata.streamInfoUpdated (roomName participantIdentity publicationSid : String)
    (d : Metadata) : Metadata :=
  ((d.set "room_name" (truncateUtf8 roomName 256)).set "participant_identity"
    (truncateUtf8 participantIdentity 256)).set "publication_sid" (truncateUtf8 publicationSid 256)

/-- The update of `_on_stream_info_cleared`. -/
def Metadata.streamInfoCleared (d : Metadata) : Metadata :=
  ((d.pop "room_name").pop "participant_identity").pop "publication_sid"

/-- The comprehension of `_request_iterator` over the items. -/
def Metadata.truncated : List (String × String) → Metadata → Metadata
  | [], d => d
  | (key, value) :: rest, d =>
    truncated rest (if key.isEmpty then d else d.set (truncateUtf8 key 64) (truncateUtf8 value 256))

/-- The metadata of a `StartStream`. -/
def Metadata.request (d : Metadata) : Metadata := truncated (d.take 16) []

/-! ## The limits -/

theorem truncateUtf8_eq (value : String) (maxBytes : Nat) :
    truncateUtf8 value maxBytes = .ofList (keep maxBytes value.toList) := by
  rw [truncateUtf8, decodeIgnore_take]

/-- `truncate_utf8` keeps as many code points as the limit admits. -/
theorem truncateUtf8_longest (value : String) (maxBytes : Nat) :
    LongestWithin maxBytes value.toList (truncateUtf8 value maxBytes).toList := by
  rw [truncateUtf8_eq, String.toList_ofList]
  exact keep_longest maxBytes value.toList

theorem utf8ByteSize_truncateUtf8 (value : String) (maxBytes : Nat) :
    (truncateUtf8 value maxBytes).utf8ByteSize ≤ maxBytes := by
  rw [truncateUtf8_eq, utf8ByteSize_ofList]
  exact length_encode_keep maxBytes value.toList

theorem isEmpty_truncateUtf8 {value : String} (h : value.isEmpty = false) {maxBytes : Nat}
    (hmax : 4 ≤ maxBytes) : (truncateUtf8 value maxBytes).isEmpty = false := by
  have hne : value.toList ≠ [] := by
    intro hnil
    rw [String.toList_eq_nil_iff.mp hnil] at h
    cases h
  rw [truncateUtf8_eq, String.isEmpty_eq_false_iff]
  intro hnil
  exact keep_ne_nil hmax hne (by simpa using congrArg String.toList hnil)

/-- What `_validate_start` asks of an item. -/
structure ItemFits (item : String × String) : Prop where
  key : item.1.isEmpty = false
  keyBytes : item.1.utf8ByteSize ≤ maxMetadataKeyBytes
  valueBytes : item.2.utf8ByteSize ≤ maxMetadataValueBytes

theorem checkMetadata_ok {d : Metadata} (h : ∀ item ∈ d, ItemFits item) :
    checkMetadata d = .ok () := by
  induction d with
  | nil => rfl
  | cons item rest ih =>
      obtain ⟨hkey, hkeyBytes, hvalueBytes⟩ := h item List.mem_cons_self
      obtain ⟨key, value⟩ := item
      rw [checkMetadata, if_neg (by simp [hkey, Nat.not_lt.mpr hkeyBytes]),
        if_neg (Nat.not_lt.mpr hvalueBytes)]
      exact ih fun item hmem => h item (List.mem_cons_of_mem _ hmem)

theorem mem_set {key value : String} {d : Metadata} {item : String × String}
    (h : item ∈ d.set key value) : item ∈ d ∨ item = (key, value) := by
  induction d with
  | nil => exact .inr (List.mem_singleton.mp h)
  | cons first rest ih =>
      rw [Metadata.set] at h
      split at h
      · obtain rfl | hmem := List.mem_cons.mp h
        · exact .inr rfl
        · exact .inl (List.mem_cons_of_mem _ hmem)
      · obtain rfl | hmem := List.mem_cons.mp h
        · exact .inl List.mem_cons_self
        · exact (ih hmem).imp_left (List.mem_cons_of_mem _)

theorem length_set_le (key value : String) (d : Metadata) :
    (d.set key value).length ≤ d.length + 1 := by
  induction d with
  | nil => exact Nat.le_refl 1
  | cons first rest ih =>
      rw [Metadata.set]
      split
      · exact Nat.le_succ _
      · rw [List.length_cons, List.length_cons]
        exact Nat.succ_le_succ ih

theorem truncated_fits (items : List (String × String)) {d : Metadata}
    (h : ∀ item ∈ d, ItemFits item) : (∀ item ∈ Metadata.truncated items d, ItemFits item) ∧
      (Metadata.truncated items d).length ≤ d.length + items.length := by
  induction items generalizing d with
  | nil => exact ⟨h, Nat.le_refl _⟩
  | cons item rest ih =>
      obtain ⟨key, value⟩ := item
      rw [Metadata.truncated]
      cases hkey : key.isEmpty with
      | true =>
          obtain ⟨hfits, hlen⟩ := ih h
          exact ⟨hfits, hlen.trans (Nat.add_le_add_left (Nat.le_succ _) _)⟩
      | false =>
          have hset : ∀ item ∈ d.set (truncateUtf8 key 64) (truncateUtf8 value 256),
              ItemFits item := by
            intro item hmem
            obtain hold | rfl := mem_set hmem
            · exact h item hold
            · exact ⟨isEmpty_truncateUtf8 hkey (by decide), utf8ByteSize_truncateUtf8 key 64,
                utf8ByteSize_truncateUtf8 value 256⟩
          obtain ⟨hfits, hlen⟩ := ih hset
          have hone := length_set_le (truncateUtf8 key 64) (truncateUtf8 value 256) d
          refine ⟨hfits, ?_⟩
          simp only [Bool.false_eq_true, if_false, List.length_cons]
          omega

/-- Whatever the metadata of the plugin is, what it sends is within the limits. -/
theorem request_fits (d : Metadata) :
    checkMetadata d.request = .ok () ∧ d.request.length ≤ maxMetadataEntries := by
  obtain ⟨hfits, hlen⟩ := truncated_fits (d.take 16) fun _ hmem => absurd hmem List.not_mem_nil
  refine ⟨checkMetadata_ok hfits, hlen.trans ?_⟩
  rw [List.length_nil, Nat.zero_add]
  exact List.length_take_le 16 d

end VoxLattice.Plugin

import Mathlib.Data.List.Basic
import HarvestPlan.Split.Fingerprint
import HarvestPlan.Text.Octets
import HarvestPlan.Proofs.Path.Segments

namespace HarvestPlan

open Json (Value)

theorem Octets.ofText_injective : Function.Injective Octets.ofText := by
  intro s t same
  have encoded : s.toList.utf8Encode = t.toList.utf8Encode := congrArg List.toByteArray same
  rwa [String.utf8Encode_toList, String.utf8Encode_toList, String.toByteArray_inj] at encoded

/-- No byte of a longer encoding is zero: the first is at least 192, the others at least 128. -/
theorem Octets.zero_mem_char_iff {c : Char} : 0 ∈ String.utf8EncodeChar c ↔ c = '\x00' := by
  have zero_iff : ∀ n, (0 : UInt8) = UInt8.ofNat n ↔ n % 256 = 0 := by
    intro n
    rw [← UInt8.toNat_inj, UInt8.toNat_ofNat', eq_comm]
    rfl
  have null_iff : c = '\x00' ↔ c.val.toNat = 0 := by
    rw [Char.ext_iff, ← UInt32.toNat_inj]
    rfl
  rw [null_iff]
  unfold String.utf8EncodeChar
  dsimp only
  generalize c.val.toNat = v
  split_ifs <;>
  · simp only [List.mem_cons, List.not_mem_nil, or_false, zero_iff]
    omega

theorem Octets.zero_mem_ofText_iff {s : String} : 0 ∈ Octets.ofText s ↔ '\x00' ∈ s.toList := by
  show 0 ∈ s.toList.flatMap String.utf8EncodeChar ↔ _
  simp [List.mem_flatMap, Octets.zero_mem_char_iff]

namespace Fingerprint

variable {paths others : List String}

theorem encoding_cons (path : String) (paths : List String) :
    encoding (path :: paths) = Octets.ofText path ++ 0 :: encoding paths :=
  List.append_assoc (Octets.ofText path) [0] (encoding paths)

theorem cut_encoding (free : ∀ path ∈ paths, '\x00' ∉ path.toList) :
    Text.cut 0 (encoding paths) = paths.map Octets.ofText ++ [[]] := by
  induction paths with
  | nil => rfl
  | cons path paths ih =>
    obtain ⟨first, rest⟩ := List.forall_mem_cons.mp free
    rw [encoding_cons, Text.cut_append, ih rest,
      Text.cut_of_notMem (mt Octets.zero_mem_ofText_iff.mp first)]
    rfl

theorem encoding_eq_iff (free : ∀ path ∈ paths, '\x00' ∉ path.toList)
    (othersFree : ∀ path ∈ others, '\x00' ∉ path.toList) :
    encoding paths = encoding others ↔ paths = others := by
  constructor
  · intro same
    have parts := congrArg (Text.cut 0) same
    rw [cut_encoding free, cut_encoding othersFree] at parts
    exact List.map_injective_iff.mpr Octets.ofText_injective (List.append_cancel_right parts)
  · exact congrArg encoding

-- A zero character in a path would end it.
example : encoding ["/a\x00/b"] = encoding ["/a", "/b"] := by decide

def ofBytes (bytes : List UInt8) : String :=
  String.ofList (Text.hexDigits 16 (Hash64.hash bytes).toNat)

end Fingerprint

namespace Split

def hashed? (split : Split) : Option (List UInt8) := split.paths?.map Fingerprint.encoding

def fullPaths (split : Split) : List (Option String) := split.members.toList.map Member.pathText?

/-- Every member has a full path without a zero character, as every path of a file has. -/
def IsNamed (split : Split) : Prop :=
  ∀ member ∈ split.members.toList, ∃ path, member.pathText? = some path ∧ '\x00' ∉ path.toList

theorem fingerprint_of_hashed {split : Split} {bytes : List UInt8}
    (hashed : split.hashed? = some bytes) : split.fingerprint = .ok (Fingerprint.ofBytes bytes) := by
  obtain ⟨paths, named, rfl⟩ := Option.map_eq_some_iff.mp hashed
  rw [fingerprint, named]
  rfl

theorem IsNamed.exists_paths {split : Split} (named : split.IsNamed) :
    ∃ paths, split.paths? = some paths ∧ split.fullPaths = paths.map some ∧
      ∀ path ∈ paths, '\x00' ∉ path.toList := by
  unfold IsNamed at named
  unfold paths? fullPaths
  generalize split.members.toList = members at named
  induction members with
  | nil => exact ⟨[], rfl, rfl, nofun⟩
  | cons member members ih =>
    obtain ⟨⟨path, here, free⟩, rest⟩ := List.forall_mem_cons.mp named
    obtain ⟨paths, later, shape, othersFree⟩ := ih rest
    refine ⟨path :: paths, ?_, ?_, List.forall_mem_cons.mpr ⟨free, othersFree⟩⟩
    · rw [List.mapM_cons, here, later]
      rfl
    · rw [List.map_cons, List.map_cons, here, shape]

/-- The fingerprint is the hash of bytes that tell the full paths of the members in their order, and
    nothing else of the split. -/
theorem hashed_eq_iff {split other : Split} (named : split.IsNamed) (otherNamed : other.IsNamed) :
    (∃ bytes, split.hashed? = some bytes ∧
      split.fingerprint = .ok (Fingerprint.ofBytes bytes)) ∧
    (split.hashed? = other.hashed? ↔ split.fullPaths = other.fullPaths) := by
  obtain ⟨paths, here, shape, free⟩ := named.exists_paths
  obtain ⟨others, there, otherShape, otherFree⟩ := otherNamed.exists_paths
  have hashed : split.hashed? = some (Fingerprint.encoding paths) := by rw [hashed?, here]; rfl
  have otherHashed : other.hashed? = some (Fingerprint.encoding others) := by
    rw [hashed?, there]
    rfl
  refine ⟨⟨_, hashed, fingerprint_of_hashed hashed⟩, ?_⟩
  rw [hashed, otherHashed, Option.some_inj, Fingerprint.encoding_eq_iff free otherFree, shape,
    otherShape]
  exact (List.map_injective_iff.mpr fun _ _ => Option.some.inj).eq_iff.symm

def ofMembers (members : List Member) : Split :=
  ⟨.int 0, members.toArray, .int members.length, .int 0, true⟩

theorem isNamed_ofMembers {members : List Member} {paths : List String}
    (shape : members.map Member.pathText? = paths.map some)
    (free : ∀ path ∈ paths, '\x00' ∉ path.toList) : (ofMembers members).IsNamed := by
  intro member present
  have told : member.pathText? ∈ paths.map some := shape ▸ List.mem_map_of_mem present
  obtain ⟨path, held, same⟩ := List.mem_map.mp told
  exact ⟨path, same.symm, free path held⟩

def entryAt (path : String) (size : Int) (owner : Value) (credentials : Credentials) : Member :=
  .entry ⟨.str "f", .str path, .int size, .int 0, owner, .bool false, "f", .int 0o644, credentials⟩

def twoFiles : Split :=
  ofMembers [entryAt "/é" 7 (.str "alice") (.localFiles (.str "file:///")),
    entryAt "/b😀" 1 (.str "bob") (.localFiles (.str "file:///"))]

def sameFiles : Split :=
  ofMembers [.unreadable (.str "/é") (.str "reason"),
    entryAt "/b😀" 0 .null (.amazonS3 (.str "id") (.str "key") .null (.str "data"))]

def oneFile : Split := ofMembers [entryAt "/é/b😀" 8 .null (.localFiles .null)]

/-- Members that have nothing but their paths in common, and one path that reads like both. -/
theorem hashed_eq_iff_two_files :
    (twoFiles.IsNamed ∧ sameFiles.IsNamed ∧ oneFile.IsNamed) ∧
      twoFiles.hashed? = sameFiles.hashed? ∧ twoFiles.hashed? ≠ oneFile.hashed? := by
  have two : twoFiles.IsNamed := @isNamed_ofMembers _ ["/é", "/b😀"] rfl (by decide)
  have same : sameFiles.IsNamed := @isNamed_ofMembers _ ["/é", "/b😀"] rfl (by decide)
  have one : oneFile.IsNamed := @isNamed_ofMembers _ ["/é/b😀"] rfl (by decide)
  refine ⟨⟨two, same, one⟩, (hashed_eq_iff two same).2.mpr rfl, fun equal => ?_⟩
  exact absurd ((hashed_eq_iff two one).2.mp equal) (by decide)

end Split
end HarvestPlan

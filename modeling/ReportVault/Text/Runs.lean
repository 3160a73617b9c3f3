/-!
# ReportVault.Text.Runs

The runs of characters between separators.

There is one run more than there are separators, and a run may be empty.
-/

namespace ReportVault.Text

/-- The runs of characters before, between and after the separators. -/
def runs (separator : Char) : List Char → List (List Char)
  | [] => [[]]
  | c :: cs =>
    if c = separator then [] :: runs separator cs
    else match runs separator cs with
      | [] => [[c]]
      | run :: rest => (c :: run) :: rest

/-- Text without a separator is one run. -/
theorem runs_of_not_mem {separator : Char} {cs : List Char} (h : separator ∉ cs) :
    runs separator cs = [cs] := by
  induction cs with
  | nil => rfl
  | cons c cs ih =>
    simp only [List.mem_cons, not_or] at h
    rw [runs, if_neg fun hc => h.1 hc.symm, ih h.2]

end ReportVault.Text

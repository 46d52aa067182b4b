import Douro.Machine.Program
import Douro.Proofs.Token.Legality
import Douro.Proofs.Token.Seam

/-!
# A file runs like its text

Line ends are made alike twice: when a file is read, in one pass, and when a source is scanned, pairs
first and single returns behind them. Reading leaves line feeds only, which scanning keeps. So the
tokens of a file stand where those of its text stand, and everything that is told from them is told
alike: the tree, the run, its log and the position of every fault.

* `Text.normaliseLineEnds_unifyLineEnds`: scanning does not see whether a file was read before.
* `scanSource_fileText`, `ofSource_fileText`: the tokens and the program of a file.
* `files_run_like_their_texts`: running the bytes of a text.
-/

namespace Douro

/-! ## Line ends -/

/-- Once line ends have been made alike, doing it again in the other way changes nothing. -/
theorem Text.normaliseLineEnds_unifyLineEnds (cs : List Char) :
    normaliseLineEnds (unifyLineEnds cs) = normaliseLineEnds cs := by
  rw [← normaliseLineEnds_eq_unifyLineEnds]
  exact normaliseLineEnds_of_no_return (return_not_mem_normaliseLineEnds cs)

/-! ## Reading and running -/

theorem scanSource_fileText (content : String) :
    scanSource (fileText content) = scanSource content := by
  simp only [scanSource, fileText, String.toList_ofList, Text.normaliseLineEnds_unifyLineEnds]

theorem ofSource_fileText (content : String) :
    Node.ofSource (fileText content) = Node.ofSource content := by
  simp only [Node.ofSource, scanSource_fileText]

/-- A file that holds the bytes of a text runs like the text, whatever its line ends are: both fail
to be read with the same error at the same place, or both end in the same way, with the same lines
printed, the same values bound and the same log. This holds for every budget for nested calls and
every level of the log. -/
theorem files_run_like_their_texts (budget : Nat) (level : Int) (source : String) :
    (String.fromUTF8? source.toUTF8).map (runContent budget level) =
      some (runSource budget level source) := by
  have hbytes : String.fromUTF8? source.toUTF8 = some source := dif_pos source.isValidUTF8
  have hrun : runContent budget level source = runSource budget level source := by
    simp only [runContent, runSource, ofSource_fileText]
  rw [hbytes, Option.map_some, hrun]

end Douro

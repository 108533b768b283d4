import SyncWizard.Common.FileBuffers

/-! The chunks that `bufferize_file` returns. -/

namespace SyncWizard.Properties
open Foundation Common

structure Bufferized (bufferSize : ℕ) (content : Text) (chunks : List Text) : Prop where
  joined : chunks.flatten = content
  full : ∀ c ∈ chunks.dropLast, c.length = bufferSize
  last : ∀ c, chunks.getLast? = some c → 1 ≤ c.length ∧ c.length ≤ bufferSize
  count : chunks.length = (content.length + bufferSize - 1) / bufferSize
  none : content = [] → chunks = []

theorem bufferized_of_pieces {bufferSize : ℕ} {content : Text} {chunks : List Text}
    (hp : Pieces bufferSize content chunks) (hb : 0 < bufferSize) :
    Bufferized bufferSize content chunks where
  joined := hp.flatten
  full := hp.full
  last _ := hp.last hb
  count := hp.count hb
  none hnil := by
    have hcount := hp.count hb
    rw [hnil, List.length_nil, Nat.zero_add, Nat.div_eq_of_lt (Nat.sub_lt hb Nat.one_pos)] at hcount
    exact List.length_eq_zero_iff.mp hcount

structure Bufferable (h : Host) (f : FileSystem) (filePath content : Text) (bufferSize : ℕ) : Prop where
  content : f.content filePath = some content
  read : h.mayRead filePath = true
  alloc : h.alloc bufferSize = true

/-- The loop ends, and what it returns is the file cut up. -/
theorem file_bufferized {h : Host} {f : FileSystem} {filePath content : Text} {bufferSize : ℕ}
    (hf : Bufferable h f filePath content bufferSize) (hb : 1 ≤ bufferSize) :
    ∃ chunks, Bufferized bufferSize content chunks ∧
      ∀ rounds, content.length / bufferSize + 1 < rounds →
        bufferizeFile h rounds filePath bufferSize f = .ok chunks (f.record .read filePath) := by
  obtain ⟨chunks, hpieces, hrun⟩ :=
    bufferRounds_pieces (f.record .read filePath) hf.alloc hb content
  refine ⟨chunks, bufferized_of_pieces hpieces hb, fun rounds hr => ?_⟩
  have hnodir : (f.lookup filePath == some .directory) = false := by
    rw [FileSystem.lookup_of_content hf.content]
    exact beq_eq_false_iff_ne.mpr (FileSystem.file_ne_directory content)
  rw [bufferizeFile, run_bind_ok (run_get f), hnodir, Bool.and_false, if_neg Bool.false_ne_true,
    run_bind_ok (FileSystem.openRead_run hf.content hf.read)]
  exact hrun rounds 0 [] hr

def journal : FileSystem :=
  ⟨[], AList.singleton [⟨txt "journal", by decide⟩] (.file [1, 2, 3, 4, 5]), []⟩

theorem journal_bufferized : ∃ chunks, Bufferized 2 [1, 2, 3, 4, 5] chunks ∧
    ∀ rounds, 3 < rounds → bufferizeFile pageHost.1 rounds (txt "journal") 2 journal =
      .ok chunks (journal.record .read (txt "journal")) :=
  file_bufferized ⟨FileSystem.content_of_node (p := [⟨txt "journal", by decide⟩]) (by decide)
    (by decide), rfl, rfl⟩ (by decide)

end SyncWizard.Properties

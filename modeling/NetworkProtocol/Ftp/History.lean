import NetworkProtocol.Ftp.Discipline

/-! What the server holds of all the requests it has ever served, over all its connections: the
parts of its state that no connection resets. -/
namespace NetworkProtocol.Ftp

def Main.exchanges (m : Main) : List Exchange := m.past.flatten ++ m.transcript

section Run
variable {m m' : Main} {e : Event}

/-- Only a request changes the server, and then its exchange is the last. -/
theorem step_exchanges (h : step m e = some m') :
    ((∀ env req, e ≠ .request env req) ∧ m'.server = m.server ∧ m'.exchanges = m.exchanges) ∨
    ∃ env req o, e = .request env req ∧ execute env req m.server = some o ∧
      m'.server = o.server ∧ m'.exchanges = m.exchanges ++ [exchange req o] := by
  rcases step_cases h with ⟨rfl, -, rfl⟩ | ⟨env, req, o, rfl, -, hexec, rfl⟩ | ⟨rfl, -, rfl⟩
  · exact .inl ⟨by simp, rfl, rfl⟩
  · refine .inr ⟨env, req, o, rfl, hexec, rfl, ?_⟩
    exact (List.append_assoc _ _ _).symm
  · refine .inl ⟨by simp, rfl, ?_⟩
    simp [Main.exchanges, Main.recvError]

/-- The invariant rule for the server and its history. -/
theorem history_invariant {I : Server → List Exchange → Prop} (init : I {} [])
    (keep : ∀ env req s o t, I s t → Served env req s o → I o.server (t ++ [exchange req o]))
    {events : List Event} (hrun : Runs.run step {} events = some m) :
    I m.server m.exchanges := by
  refine Runs.run_invariant (I := fun m => I m.server m.exchanges) (fun m e m' hI h => ?_) init hrun
  rcases step_exchanges h with ⟨-, hserver, hexchanges⟩ |
    ⟨env, req, o, -, hexec, hserver, hexchanges⟩
  · rw [hserver, hexchanges]
    exact hI
  · rw [hserver, hexchanges]
    exact keep env req m.server o _ hI (served hexec)

end Run

end NetworkProtocol.Ftp

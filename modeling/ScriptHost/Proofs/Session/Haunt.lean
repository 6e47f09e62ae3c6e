import ScriptHost.Eval.Native
import ScriptHost.Proofs.Session.WellFormed
import ScriptHost.Proofs.Snapshot.Profiler

/-!
This module contains that scripts can be haunted at all moments of a session, and what they are told.
-/

namespace ScriptHost

theorem Eval.haunt_done {s : Session} {report : HauntReport} {p : Profiler} (loc : Location) (env : Env)
    (hhaunt : s.profiler.haunt s.heap s.roots = (.ok report, p))
    : haunt loc env s
        = .done .undefined { s with
            profiler := p, console := s.console.write .out (report.text ++ "\n") } := by
  unfold haunt
  rw [Run.get_bind, hhaunt]
  rfl

namespace Session

variable {s : Session}

/--
At every moment of a session and with every profiler, whatever snapshots it holds, a new snapshot has one
node for each of the entities that can be reached. The second edge of its root and then the first internal
edge with the name `map` lead to the global object and its shape. So there is always a report. It has the
number of nodes, the facts of the shape, and the id of the global object. Nothing changes but the console
and the profiler, which holds no snapshots after it. No profiler gives a number to two snapshots before all
numbers have been used.
-/
theorem visited_haunt (hv : s.Visited) (p : Profiler)
    : ∃ (order : List Entity) (report : HauntReport),
        order.Nodup ∧ (∀ e, e ∈ order ↔ Snapshot.Depicted s.heap s.roots e) ∧
        (p.take s.heap s.roots).1.nodes.size = order.length ∧
        (∃ g m, (p.take s.heap s.roots).1.child? 0 1 = some g ∧ order[g]? = some (.object s.global) ∧
          (p.take s.heap s.roots).1.find? g .internal "map" = some m ∧
          order[m]? = some (.shape (s.heap.object s.global).shape)) ∧
        report = ⟨order.length, "system / Map", shapeSize, .hidden, (s.heap.object s.global).stableId⟩ ∧
        p.haunt s.heap s.roots = (.ok report, ⟨#[], p.lastUid + 1⟩) ∧
        (∀ ev args loc env, Eval.native ev .haunt args loc env { s with profiler := p }
          = .done .undefined { s with
              profiler := ⟨#[], p.lastUid + 1⟩, console := s.console.write .out (report.text ++ "\n") }) ∧
        ∀ acts : List Profiler.Act, acts.countP Profiler.Act.captures < 2 ^ 32 →
          (Profiler.issued {} acts).Nodup := by
  have hs := hv.wellFormed.linked
  have hhaunt := Profiler.haunt_eq hs.heap hs.roots p
  refine ⟨Snapshot.entities s.heap s.roots, _, Snapshot.nodup_entities hs.heap hs.roots,
    Snapshot.mem_entities_iff hs.heap hs.roots, ?_, Snapshot.way_to_shape hs.heap hs.roots (p.lastUid + 1),
    rfl, hhaunt, ?_, ?_⟩
  . exact (Snapshot.capture_laidOut s.heap s.roots (p.lastUid + 1)).size
  . exact fun ev args loc env => Eval.haunt_done loc env hhaunt
  . exact fun acts hlt => Profiler.nodup_issued hlt

/-- A script can give the global object a property `map`. -/
theorem mapped_spec
    : ∃ p, scripted? "var map = 'user map';" = some p ∧
        p.2.heap.property? p.2.global "map" = some (.string "user map") := by
  decide +kernel

/-- The report is about the shape, and not about a property with the same name. -/
theorem visited_haunt_mapped
    : ∃ (s : Session) (report : HauntReport), s.Visited ∧
        s.heap.property? s.global "map" = some (.string "user map") ∧
        (Profiler.haunt {} s.heap s.roots).1 = .ok report ∧ report.name = "system / Map" ∧
        report.globalId = (s.heap.object s.global).stableId ∧
        (Profiler.issued {} [.haunt s.heap s.roots, .release, .take s.heap s.roots]).Nodup := by
  obtain ⟨⟨s₀, s⟩, hp, hmap⟩ := mapped_spec
  have hv : s.Visited := visited_of_scripted? hp
  obtain ⟨order, report, -, -, -, -, hreport, hhaunt, -, hissued⟩ := visited_haunt hv {}
  have htwo : [Profiler.Act.haunt s.heap s.roots, .release, .take s.heap s.roots].countP
      Profiler.Act.captures = 2 := rfl
  refine ⟨s, report, hv, hmap, ?_, ?_, ?_, hissued _ (by rw [htwo]; decide)⟩
  . rw [hhaunt]
  . rw [hreport]
  . rw [hreport]

end Session
end ScriptHost

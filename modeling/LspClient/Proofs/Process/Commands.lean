import LspClient.Proofs.Program.Steps
import LspClient.Session.Processes

/-!
# Processes and their pipes

To start a process, to talk to it and to drop it changes pipes and children, and nothing else
(`OnProcesses`). What all such steps are like, all steps of these programs are like; what the
process itself does is up to the machine.
-/

namespace LspClient

open Program

variable {ε α : Type} {w w' : World ε} {G : World ε → World ε → Prop}

/-- The step changes pipes and children, and nothing else. -/
def World.OnProcesses (w w' : World ε) : Prop :=
  ∃ pipes children, w' = { w with pipes, children }

open World (OnProcesses)

namespace World.OnProcesses

theorem refl (w : World ε) : OnProcesses w w := ⟨w.pipes, w.children, rfl⟩

theorem onPipe (w : World ε) (i : Nat) (f : Pipe → Pipe) : OnProcesses w (w.onPipe i f) :=
  ⟨_, _, rfl⟩

theorem prepare (program : String) (args : List String) (dir : Option Path) (w : World ε) :
    OnProcesses w (Process.prepare program args dir w).2 := by
  unfold Process.prepare
  split
  · exact .refl w
  · exact ⟨_, _, rfl⟩

end World.OnProcesses

section Keeps

variable (hG : ∀ w w', OnProcesses w w' → G w w')

include hG

theorem Channel.keeps_readAll (i : Nat) : ((pipe i).readAll : Work ε _).Keeps G := by
  have hread (n : Nat) (parts : List (List UInt8)) :
      ((pipe i).readAllFrom n parts : Work ε _).Keeps G := by
    induction n generalizing parts with
    | zero => exact .pure _
    | succ n ih =>
      refine .bind (.await fun w part w' hs => ?_) fun part => ?_
      · simp only [takeFrom] at hs
        split at hs
        · obtain ⟨-, heq⟩ := Option.ite_none_right_eq_some.1 hs
          cases heq
          exact hG w _ (.refl w)
        · cases hs
          exact hG w _ (.onPipe w i _)
      · cases part with
        | nil => exact .pure _
        | cons b part => exact ih _
  exact hread maxReads []

theorem Channel.keeps_write (i : Nat) (bytes : List UInt8) :
    ((pipe i).write bytes : Work ε _).Keeps G := by
  have hwrite (n : Nat) (bytes : List UInt8) : (writePipe i n bytes : Work ε _).Keeps G := by
    induction n generalizing bytes with
    | zero => cases bytes <;> exact .pure _
    | succ n ih =>
      cases bytes with
      | nil => exact .pure _
      | cons b bytes =>
        refine .bind (.await fun w rest w' hs => ?_) fun rest => ?_
        · simp only [offerTo] at hs
          split at hs
          · cases hs
            exact hG w _ (.refl w)
          · split at hs
            · cases hs
            · cases hs
              exact hG w _ (.onPipe w i _)
        · cases rest with
          | none => exact .pure _
          | some rest => exact ih rest
  exact hwrite _ bytes

theorem CommandLinter.keeps_converse (r : Running) (bytes : List UInt8) :
    (converse r bytes : Work ε _).Keeps G := by
  refine ⟨?_, ⟨Channel.keeps_readAll hG _, Channel.keeps_readAll hG _, fun _ _ => trivial⟩,
    fun _ _ => ?_⟩
  · exact .bind (Channel.keeps_write hG _ _) fun _ => .update fun w => hG w _ (.onPipe w _ _)
  · refine .bind (.await fun w status w' hs => ?_) fun _ => .pure _
    obtain ⟨status', -, heq⟩ := Option.map_eq_some_iff.1 hs
    cases heq
    exact hG w _ (.refl w)

theorem CommandLinter.keeps_drop (r : Running) : (drop r : Work ε _).Keeps G := by
  refine .bind (.update fun w => hG w _ ⟨_, _, rfl⟩) fun _ => ?_
  refine .bind (.update fun w => hG w _ (.onPipe w _ _)) fun _ => ?_
  refine .bind (.update fun w => hG w _ (.onPipe w _ _)) fun _ => ?_
  exact .update fun w => hG w _ (.onPipe w _ _)

variable {machine : Machine ε} (hmachine : ∀ name invocation, (machine name invocation).Keeps G)

include hmachine

theorem Process.keeps_start (program : String) (args : List String) (dir : Option Path) :
    (start machine program args dir).Keeps G := by
  refine .bind (.act fun w => hG w _ (.prepare program args dir w)) fun r => ?_
  match r with
  | .error e => exact .pure _
  | .ok b =>
    have hlife := (hmachine b.program b.invocation).abandonWhen (fun w => hG w _ (.refl w))
      (isSignalled b.running.child)
    exact .bind (.fork (.bind hlife fun _ => .update fun w => hG w _ ⟨_, _, rfl⟩)) fun _ => .pure _

theorem CommandLinter.keeps_format {name program content : String} {args : List String}
    {path : Path} {token : Token} :
    (format machine name program args path content token).Keeps G := by
  refine .bind (.look fun w => hG w _ (.refl w)) fun cancelled => ?_
  split
  · exact .pure _
  refine .bind (Process.keeps_start hG hmachine _ _ _) fun r => ?_
  match r with
  | .error e => exact .pure _
  | .ok r =>
    have hconverse := (keeps_converse hG r (Utf8.encode content)).abandonWhen
      (fun w => hG w _ (.refl w)) fun w => w.isCancelled token
    refine .bind hconverse fun f => ?_
    match f with
    | some f => exact .pure _
    | none => exact .bind (keeps_drop hG r) fun _ => .pure _

end Keeps

end LspClient

import LspClient.Proofs.Registry.Sharing
import Mathlib.Data.List.Basic

/-!
# Whose connection a caller gets

A key joins the words of a command line by spaces, so it tells command lines apart as far as their
pieces go, the words cut at their spaces: two keys stand for one connection exactly if the pieces
agree one by one, and so do the directories (`same_make_iff`). Where no word has a space in it, the
pieces are the words.

Whoever gets a connection gets one that was opened for a key like its own (`Accounted.given`):
slots are filed under the keys of those who own their generations.
-/

namespace LspClient

namespace ServerConfig

/-- The command and its arguments. -/
def words (config : ServerConfig) : List String := config.command :: config.args

/-- The words, cut at their spaces. -/
def pieces (config : ServerConfig) : List (List Char) :=
  (config.words.map String.toList).flatMap (List.splitOn ' ')

/-- No word has a space in it. -/
def Unspaced (config : ServerConfig) : Prop := ∀ word ∈ config.words, ' ' ∉ word.toList

variable {config c₁ c₂ : ServerConfig}

theorem pieces_of_unspaced (h : config.Unspaced) :
    config.pieces = config.words.map String.toList := by
  have hsplit : ∀ cs ∈ config.words.map String.toList, cs.splitOn ' ' = [cs] := by
    intro cs hcs
    obtain ⟨word, hword, rfl⟩ := List.mem_map.1 hcs
    exact List.splitOn_eq_singleton (h word hword)
  rw [pieces, List.flatMap_def, List.map_congr_left hsplit, ← List.flatMap_def]
  exact List.flatMap_singleton' _

theorem pieces_eq_iff (h₁ : c₁.Unspaced) (h₂ : c₂.Unspaced) :
    c₁.pieces = c₂.pieces ↔ c₁.command = c₂.command ∧ c₁.args = c₂.args := by
  rw [pieces_of_unspaced h₁, pieces_of_unspaced h₂]
  constructor
  · intro h
    have hwords : c₁.words = c₂.words :=
      List.map_injective_iff.2 (fun _ _ => String.toList_inj.1) h
    exact List.cons.inj hwords
  · rintro ⟨hcommand, hargs⟩
    rw [words, words, hcommand, hargs]

end ServerConfig

/-! ### Keys -/

namespace ConnectionKey

variable {c₁ c₂ : ServerConfig} {d₁ d₂ : Path}

/-- What was joined falls into the pieces that its parts fall into. -/
theorem splitOn_intercalate_cons (sep : Char) (cs : List Char) (css : List (List Char)) :
    ([sep].intercalate (cs :: css)).splitOn sep = (cs :: css).flatMap (List.splitOn sep) := by
  induction css generalizing cs with
  | nil => simp
  | cons ds css ih =>
    have hjoin : [sep].intercalate (cs :: ds :: css) =
        cs ++ sep :: [sep].intercalate (ds :: css) := by simp [List.intercalate]
    rw [hjoin, List.splitOn_append_cons_self, ih]
    rfl

theorem splitOn_command (config : ServerConfig) (cwd : Path) :
    (make config cwd).command.toList.splitOn ' ' = config.pieces := by
  have hlist : (make config cwd).command.toList =
      [' '].intercalate (config.words.map String.toList) := String.toList_intercalate
  rw [hlist]
  exact splitOn_intercalate_cons ' ' _ _

theorem command_eq_iff :
    (make c₁ d₁).command = (make c₂ d₂).command ↔ c₁.pieces = c₂.pieces := by
  rw [← splitOn_command c₁ d₁, ← splitOn_command c₂ d₂]
  constructor
  · intro h
    rw [h]
  · intro h
    have hlist := congrArg [' '].intercalate h
    rw [List.intercalate_splitOn, List.intercalate_splitOn] at hlist
    exact String.toList_inj.1 hlist

theorem same_make_iff :
    (make c₁ d₁).Same (make c₂ d₂) ↔ c₁.pieces = c₂.pieces ∧ d₁.Same d₂ :=
  and_congr_left' command_eq_iff

end ConnectionKey

/-! ### Who opened what -/

namespace Registry

open Program Crew

variable {ε : Type} {connect : Connector ε} {w : World ε} {moments : Moments ε}
  {c : Crew (World ε) Ask Outcome} {P : Actor → Stage}

/-- The connection was opened by nobody but the creation `j`, which goes back to a caller that
asked for `y`. -/
structure OpenedFor (connect : Connector ε) (moments : Moments ε)
    (c : Crew (World ε) Ask Outcome) (i j : Nat) (y : Ask) (g : Nat) : Prop where
  begun : Begun moments c y g
  body : ∃ p, c.services[j]? = some (creation connect y g, p)
  opened : OpenedBy moments (.service j) i
  alone : ∀ a, OpenedBy moments a i → a = .service j

namespace Accounted

variable {k i g : Nat} {x : Ask}

section

variable (h : Accounted connect P moments c)

include h

theorem opened_for {j : Nat} {y : Ask} (hj : creationsOf P j = some (y, g))
    (hi : OpenedBy moments (.service j) i) : OpenedFor connect moments c i j y g :=
  let ⟨hbody, hbegun⟩ := h.begun hj
  ⟨hbegun, hbody, hi, fun a ha => h.opener_unique a _ i ha hi⟩

/-- Who has waited for a generation has waited under the key of the one who owns it. -/
theorem owner_of_waitedFor {a : Actor} {key : ConnectionKey} (hwaited : WaitedFor moments a key g) :
    ∃ b y, (P b).ask = some y ∧ (P b).role.owned? = some g ∧ y.key.Same key := by
  obtain ⟨m, hm, -, ⟨name, fileTypes, hslot⟩ | hclaims⟩ := hwaited
  · exact (h.orderedPast m hm).1.filed key _ hslot
  · obtain ⟨name, fileTypes, hslot⟩ := hclaims.slot
    have hself : m.after.registry.slot? key = some (.starting g name fileTypes) := by
      rw [hslot key, if_pos (ConnectionKey.Same.refl key)]
    exact (h.orderedPast m hm).2.filed key _ hself

/-- The creation of a generation is for the key of the one who owns the generation. -/
theorem same_key_of_owner {b : Actor} {j : Nat} {y z : Ask} {key : ConnectionKey}
    (hask : (P b).ask = some y) (hg : (P b).role.owned? = some g) (hsame : y.key.Same key)
    (hj : creationsOf P j = some (z, g)) : z.key.Same key := by
  obtain ⟨hask', hg'⟩ := creationsOf_eq_some.1 hj
  obtain rfl := h.owner_unique b (.service j) g hg (owned?_of_created? hg')
  cases hask.symm.trans hask'
  exact hsame

/-- A caller gets a connection that was opened for a key like its own. -/
theorem given (hk : c.clients[k]? = some (x, .done (.ok i))) :
    ∃ j y g, creationsOf P j = some (y, g) ∧ OpenedBy moments (.service j) i ∧
      y.key.Same x.key := by
  generalize hr : (Except.ok i : Outcome) = r at hk
  cases h.answered hk with
  | refused => cases hr
  | @found m g i' name hm _ hslot _ =>
    cases hr
    obtain ⟨b, y, hask, hg, hsame⟩ := (h.orderedPast m hm).1.filed x.key _ hslot
    obtain ⟨j, hj, hopened⟩ := (h.orderedPast m hm).1.kept x.key g name i hslot
    obtain ⟨z, hz⟩ := h.exists_creation hj
    exact ⟨j, z, g, hz, hopened, h.same_key_of_owner hask hg hsame hz⟩
  | @heard g r hwaited houtcome =>
    subst hr
    obtain ⟨b, y, hask, hg, hsame⟩ := h.owner_of_waitedFor hwaited
    obtain ⟨j, z, hz, hopened⟩ := h.told_ok houtcome
    exact ⟨j, z, g, hz, hopened, h.same_key_of_owner hask hg hsame hz⟩
  | left => cases hr

end

end Accounted

/-- Two callers get one connection only if the pieces of their command lines agree, and their
directories; keys tell no more than that. -/
theorem connection_by_pieces (hconnect : Lawful connect) (hw : w.registry = Registry.empty)
    (run : Run (rules connect) (Crew.ofState w) moments c) :
    (∀ (c₁ c₂ : ServerConfig) (d₁ d₂ : Path),
      (ConnectionKey.make c₁ d₁).Same (ConnectionKey.make c₂ d₂) ↔
        c₁.pieces = c₂.pieces ∧ d₁.Same d₂) ∧
    (∀ c₁ c₂ : ServerConfig, c₁.Unspaced → c₂.Unspaced →
      (c₁.pieces = c₂.pieces ↔ c₁.command = c₂.command ∧ c₁.args = c₂.args)) ∧
    ∀ (k : Nat) (x : Ask) (i : Nat), c.clients[k]? = some (x, .done (.ok i)) →
      ∃ j y g, OpenedFor connect moments c i j y g ∧
        y.config.pieces = x.config.pieces ∧ y.cwd.Same x.cwd := by
  obtain ⟨P, h⟩ := exists_accounted hconnect hw run
  refine ⟨fun _ _ _ _ => ConnectionKey.same_make_iff, fun _ _ => ServerConfig.pieces_eq_iff,
    fun k x i hk => ?_⟩
  -- the slot is compared by its key, so the connection is one for the same pieces
  obtain ⟨j, y, g, hj, hopened, hsame⟩ := h.given hk
  exact ⟨j, y, g, h.opened_for hj hopened, ConnectionKey.same_make_iff.1 hsame⟩

/-! ### One caller after another -/

def asking (command : String) (args : List String) : Ask :=
  { someAsk with config := ⟨⟨command, args, "text", [], [], none, none, none⟩⟩ }

/-- A caller gets its connection before the next one enters. -/
def oneAfterAnother (x y : Ask) : List (Choice (rules overPipes)) :=
  [.enter x] ++ List.replicate 4 (.client 0) ++ List.replicate 6 (.service 0) ++
  [.client 0, .enter y] ++ List.replicate 4 (.client 1) ++ List.replicate 6 (.service 4) ++
  [.client 1]

theorem connection_by_pieces_serve :
    (play (oneAfterAnother (asking "serve" ["all"]) (asking "serve" ["all"]))
        ([], Crew.ofState twoPipes)).2.clients.map (fun e => e.2.result?) =
      [some (.ok 0), some (.ok 0)] ∧
    ∃ j y g, OpenedFor overPipes
        (play (oneAfterAnother (asking "serve" ["all"]) (asking "serve" ["all"]))
          ([], Crew.ofState twoPipes)).1
        (play (oneAfterAnother (asking "serve" ["all"]) (asking "serve" ["all"]))
          ([], Crew.ofState twoPipes)).2 0 j y g ∧
      y.config.pieces = (asking "serve" ["all"]).config.pieces ∧ y.cwd.Same ⟨"/"⟩ :=
  ⟨by rfl, (connection_by_pieces lawful_overPipes rfl
    (run_play (oneAfterAnother _ _) .nil)).2.2 1 (asking "serve" ["all"]) 0 (by rfl)⟩

/-- A word with a space in it is taken for two: the second caller gets the connection of another
command line. -/
theorem same_key_spaced :
    (asking "serve all" []).key.Same (asking "serve" ["all"]).key ∧
    (asking "serve all" []).config.command ≠ (asking "serve" ["all"]).config.command ∧
    (play (oneAfterAnother (asking "serve all" []) (asking "serve" ["all"]))
        ([], Crew.ofState twoPipes)).2.clients.map (fun e => e.2.result?) =
      [some (.ok 0), some (.ok 0)] :=
  ⟨⟨by decide +kernel, rfl⟩, by decide, by rfl⟩

end Registry

end LspClient

import StackScript.Proofs.Statements.Running

/-!
# Running statements

Each construct leads to where its code ends, to where `break` or `continue` of the loop around it
lead, or makes more steps than were asked for. The loop around a statement stands in a table so many
scopes above the one at hand; inside a loop that number starts from nothing again.

Main statement: `Stmt.executes`, by one lemma for each construct.
-/
namespace StackScript

/-- Where a statement leads to that ended in some way. -/
def Arrives (move : Nat → Nat) (kept : Nat → Prop) (most stop : Nat) (target : Bool → Nat)
    (r outer : TableRef) (e : Ending) (count pc : Nat) (r' : TableRef) : Prop :=
  match e with
  | .done => Stands move kept stop r pc r'
  | .leaves isBreak => Stands move kept (target isBreak) outer pc r'
  | .unfinished => most ≤ count

theorem Arrives.later {move : Nat → Nat} {kept : Nat → Prop} {most stop stop' : Nat}
    {target : Bool → Nat} {r outer r' r'' : TableRef} {e : Ending} {n n' pc : Nat}
    (h : Arrives move kept most stop target r outer e n pc r') (le : n ≤ n')
    (same : e = .done → stop' = stop ∧ r'' = r) :
    Arrives move kept most stop' target r'' outer e n' pc r' := by
  cases e with
  | done =>
    obtain ⟨rfl, rfl⟩ := same rfl
    exact h
  | leaves => exact h
  | unfinished => exact Nat.le_trans h le

section

variable {code trimmed : Code} {move : Nat → Nat} {kept : Nat → Prop}
variable (trims : Trimming code trimmed move kept) {c : Context} (high : c.base ≤ c.stack.size)
variable (spell : String → String) (most : Nat)

/-- What the code of a statement comes to, wherever it stands. -/
def Simulated (code trimmed : Code) (move : Nat → Nat) (kept : Nat → Prop) (c : Context)
    (spell : String → String) (most : Nat) (s : Stmt) : Prop :=
  ∀ {P : Store → Prop} {start last depth : Nat} {target : Bool → Nat} {r outer : TableRef},
    Lasting P → (∀ s, P s → s.code c.code = trimmed) → (∀ s, P s → Below s depth r outer) →
    s.Short depth → Placed code start (fill target (s.slots spell start last depth)) →
    kept start → (∀ isBreak, target isBreak ≤ code.size) →
    Executes c P (move start) r (s.exec ⟨c.strictness, r, spell⟩ most)
      (Arrives move kept most (start + (s.slots spell start last depth).length) target r outer)

variable {P : Store → Prop} {start : Nat} {r : TableRef} {spell}

/-- Steps behind a computation that change nothing but the spot. -/
theorem Executes.finally {α : Type} {m : WorldM α} {pc : Nat}
    {ends ends' : α → Nat → Nat → TableRef → Prop} (hm : Executes c P pc r m ends)
    (lasting : Lasting P) (extends' : WorldM.Extends m)
    (h : ∀ a n pc' r', ends a n pc' r' →
      Executes c P pc' r' (Pure.pure a : WorldM α) fun b k pc r => ends' b (n + k) pc r) :
    Executes c P pc r m ends' := by
  have := hm.andThen lasting extends' h
  rwa [bind_pure] at this

theorem Simulated.nothing : Simulated code trimmed move kept c spell most .nothing :=
  fun _ _ _ _ _ live _ => .pure _ ⟨rfl, live, rfl⟩

include trims

/-- Entering a scope makes the table that the interpreter makes. -/
theorem Trimming.opensTable (placedIn : ∀ s, P s → s.code c.code = trimmed)
    (found : code.instructions[start]? = some ⟨.pushScope, .none⟩) (live : kept start) :
    Executes c P (move start) r (openTable r : WorldM TableRef) fun table _ =>
      Stands move kept (start + 1) table := by
  intro line w s good
  obtain ⟨here, next, adjacent⟩ := trims.plainAt found live rfl rfl
  have opened : (openTable r : WorldM TableRef) w s =
      ((.ok (s.newChild r "block").1, w), (s.newChild r "block").2) := rfl
  rw [← placedIn s good] at here
  rw [opened]
  exact ⟨1, _, _, line, ⟨adjacent.symm, next, rfl⟩, .one (Exec.step_ok here (by simp) rfl)⟩

/-- Leaving scopes leads to the table that the outermost of them was opened in. -/
theorem Trimming.leavesScopes {α : Type} {m : WorldM α} {ends : α → Nat → Nat → TableRef → Prop}
    {depth : Nat} {outer : TableRef} (placedIn : ∀ s, P s → s.code c.code = trimmed)
    (found : code.instructions[start]? = some (popScopes depth)) (live : kept start)
    (some : 0 < depth) (few : depth < countLimit) (below : ∀ s, P s → Below s depth r outer)
    (hm : kept (start + 1) → Executes c P (move (start + 1)) outer m fun a n => ends a (1 + n)) :
    Executes c P (move start) r m ends := by
  refine trims.onward placedIn found live rfl rfl (by simp [popScopes])
    (fun line w s good => ⟨line, ?_⟩) hm
  exact Exec.closeScopes_below (c := c.spot (move start + 1) r line) some few (below s good)

/-- Noting a line, unless it was noted last, comes before a statement. -/
theorem Trimming.notes {α : Type} {m : WorldM α} {ends : α → Nat → Nat → TableRef → Prop}
    {line last : Nat} (placedIn : ∀ s, P s → s.code c.code = trimmed) (off : c.debugger = {})
    (placed : Placed code start (lineCode line last)) (live : kept start)
    (hm : kept (start + (lineCode line last).length) → ∀ k,
      Executes c P (move (start + (lineCode line last).length)) r m fun a n => ends a (k + n)) :
    Executes c P (move start) r m ends := by
  unfold lineCode at placed hm
  split at placed
  · rename_i isNew
    rw [if_pos isNew] at hm
    let noted := Exec.countOf (.int (Int64.ofNat line)) 0
    refine trims.onward placedIn placed.head live rfl rfl (by simp)
      (fun before w s _ => ⟨noted, ?_⟩) fun next => hm next 1
    exact Exec.atLine_ok (c := c.spot (move start + 1) r before) _ off w s
  · rename_i noted
    rw [if_neg noted] at hm
    simpa using hm live 0

theorem Simulated.next {first rest : Stmt} (off : c.debugger = {})
    (one : Simulated code trimmed move kept c spell most first)
    (others : Simulated code trimmed move kept c spell most rest) (line : Nat) :
    Simulated code trimmed move kept c spell most (.next line first rest) := by
  intro P start last depth target r outer lasting placedIn below short placed live within
  simp only [Stmt.slots, fill_append, fill_plain, List.length_append, plain_length] at placed ⊢
  have behind := placed.right
  rw [List.length_append, fill_length, ← Nat.add_assoc] at behind
  refine trims.notes placedIn off placed.left.left live fun noted k => ?_
  have executes := one lasting placedIn below short.1 placed.left.right noted within
  refine executes.andThen lasting (first.exec_within _ most) fun e n pc r' arrives => ?_
  cases e with
  | done =>
    obtain ⟨rfl, next, rfl⟩ := arrives
    refine (others lasting placedIn below short.2 behind next within).mono ?_
    intro e n' pc r' arrives
    exact arrives.later (by omega) fun _ => ⟨by omega, rfl⟩
  | leaves isBreak => exact .pure _ arrives
  | unfinished => exact .pure _ (Nat.le_trans arrives (by omega))

theorem Simulated.leave (isBreak : Bool) :
    Simulated code trimmed move kept c spell most (.leave isBreak) := by
  intro P start last depth target r outer lasting placedIn below short placed live within
  have jumps {start : Nat} {ends : Ending → Nat → Nat → TableRef → Prop} (live : kept start)
      (found : code.instructions[start]? = some ⟨.branch, .address (target isBreak)⟩)
      (h : ∀ n pc r', Stands move kept (target isBreak) outer pc r' →
        ends (.leaves isBreak) n pc r') :
      Executes c P (move start) outer (pure (.leaves isBreak) : WorldM Ending) ends :=
    trims.jumps placedIn found live (within isBreak) fun next => .pure _ (h _ _ _ ⟨rfl, next, rfl⟩)
  by_cases some : 0 < depth
  · simp only [Stmt.slots_leave, some, if_true] at placed ⊢
    refine trims.leavesScopes placedIn placed.head live some short below fun next => ?_
    exact jumps next placed.tail.head fun _ _ _ h => h
  · obtain rfl : depth = 0 := by omega
    have same : ∀ s, P s → r = outer := below
    simp only [Stmt.slots_leave, some, if_false] at placed ⊢
    intro line w s good
    cases same s good
    exact jumps live placed.head (fun _ _ _ h => h) line w s good

include high

theorem Simulated.assign (a : Assignment) :
    Simulated code trimmed move kept c spell most (.assign a) := by
  intro P start last depth target r outer lasting placedIn below short placed live within
  simp only [Stmt.slots, fill_plain, plain_length] at placed ⊢
  have assigns (line : Nat) (w : World) :=
    trims.assigns (c := c.spot 0 r line) (w := w) placed live short high
  have executes : Executes c P (move start) r (a.exec ⟨c.strictness, r, spell⟩ : WorldM Unit)
      fun _ _ => Stands move kept (start + (a.code spell start).length) r :=
    .lift (fun line w => (assigns line w).2) placedIn fun _ _ => ⟨rfl, (assigns 0 {}).1, rfl⟩
  refine executes.andThen lasting (.lift (a.exec_within _)) ?_
  rintro _ n _ _ ⟨rfl, stands⟩
  exact .pure _ ⟨rfl, stands⟩

theorem Simulated.print (es : List Expr) :
    Simulated code trimmed move kept c spell most (.print es) := by
  intro P start last depth target r outer lasting placedIn below short placed live within
  simp only [Stmt.slots, fill_plain, plain_length] at placed ⊢
  have executes := trims.prints high placedIn (r := r) placed live short.2 short.1
  refine executes.andThen lasting (printLine_within _ es) ?_
  rintro _ n _ _ ⟨rfl, stands⟩
  exact .pure _ ⟨rfl, stands⟩

theorem Simulated.inScope {body : Stmt} (h : Simulated code trimmed move kept c spell most body)
    (opening : Option Assignment) :
    Simulated code trimmed move kept c spell most (.inScope opening body) := by
  intro P start last depth target r outer lasting placedIn below short placed live within
  simp only [Stmt.slots, fill_append, fill_plain, List.length_append, plain_length,
    List.length_cons, List.length_nil] at placed ⊢
  have close := placed.right.head
  simp only [List.length_append, List.length_cons, fill_length] at close
  -- the new table lies below the one at hand
  let Q (table : TableRef) (s : Store) : Prop := P s ∧ (s.table table).parent = some r
  have lasting' (table : TableRef) : Lasting (Q table) :=
    fun extends' good => ⟨lasting extends' good.1, extends'.parents good.2⟩
  have placedIn' (table : TableRef) (s : Store) (good : Q table s) := placedIn s good.1
  have below' (table : TableRef) (s : Store) (good : Q table s) : Below s (depth + 1) table outer :=
    ⟨r, good.2, below s good.1⟩
  refine (trims.opensTable placedIn placed.left.left.head live).bind (Q := Q) ?_ ?_
  · intro w s good table opened
    cases opened
    exact ⟨lasting (.newChild s r "block") good, openTable_below s r⟩
  rintro _ n _ table ⟨rfl, next, rfl⟩
  have assigns (line : Nat) (w : World) := trims.assignsIfAny (c := c.spot 0 table line) (w := w)
    placed.left.left.tail next short.1 high
  have executes : Executes c (Q table) (move (start + 1)) table
      (execIfAny ⟨c.strictness, table, spell⟩ opening : WorldM Unit) fun _ _ =>
      Stands move kept (start + 1 + (codeIfAny spell (start + 1) opening).length) table :=
    .lift (fun line w => (assigns line w).2) (placedIn' table) fun _ _ => ⟨rfl, (assigns 0 {}).1, rfl⟩
  refine executes.andThen (lasting' table) (.lift (execIfAny_within _ opening)) ?_
  rintro _ n' _ table ⟨rfl, begun, rfl⟩
  have behind : start + 1 + (codeIfAny spell (start + 1) opening).length =
      start + ((codeIfAny spell (start + 1) opening).length + 1) := by omega
  rw [behind] at begun ⊢
  have inner := h (lasting' table) (placedIn' table) (below' table) short.2 placed.left.right begun
    within
  refine inner.finally (lasting' table) (body.exec_within _ most) fun e k pc r' arrives => ?_
  cases e with
  | done =>
    obtain ⟨rfl, last, rfl⟩ := arrives
    rw [Nat.add_assoc] at last ⊢
    refine trims.leavesScopes (placedIn' _) close last (by decide) (by decide)
      (fun s good => ⟨r, good.2, rfl⟩) fun next => .pure _ ⟨rfl, next, rfl⟩
  | leaves isBreak => exact .pure _ arrives
  | unfinished => exact .pure _ (Nat.le_trans arrives (by omega))

theorem Simulated.branch {yes no : Stmt} (hyes : Simulated code trimmed move kept c spell most yes)
    (hno : Simulated code trimmed move kept c spell most no) (test : Expr) :
    Simulated code trimmed move kept c spell most (.branch test yes no) := by
  intro P start last depth target r outer lasting placedIn below short placed live within
  have extends' := WorldM.Extends.lift (test.holds_within ⟨c.strictness, r, spell⟩)
  cases missing : no.isNothing with
  | true =>
    obtain rfl : no = .nothing := by cases no <;> first | rfl | cases missing
    simp only [Stmt.slots, missing, if_true, fill_append, fill_plain, List.length_append,
      plain_length, List.length_cons, List.length_nil, Nat.zero_add, ← Nat.add_assoc] at placed ⊢
    have stop := placed.within (by simp)
    simp only [List.length_append, List.length_cons, List.length_nil, fill_length, Nat.zero_add,
      ← Nat.add_assoc] at stop
    have tests := trims.tests high placedIn (r := r) placed.left live short.1 stop
    have body := placed.right
    rw [List.length_append, List.length_singleton, ← Nat.add_assoc] at body
    refine tests.andThen lasting extends' fun holds n pc r' stands => ?_
    cases holds with
    | true =>
      obtain ⟨rfl, next, rfl⟩ := stands
      exact (hyes lasting placedIn below short.2.1 body next within).mono
        fun e k pc r' arrives => arrives.later (by omega) fun _ => ⟨rfl, rfl⟩
    | false => exact .pure _ stands
  | false =>
    simp only [Stmt.slots, missing, Bool.false_eq_true, if_false, fill_append, fill_plain,
      List.length_append, plain_length, List.length_cons, List.length_nil, Nat.zero_add,
      ← Nat.add_assoc] at placed ⊢
    have stop := placed.within (by simp)
    have body := placed.left.left.right
    have jump := placed.left.right.head
    have other := placed.right
    simp only [List.length_append, List.length_cons, List.length_nil, fill_length, Nat.zero_add,
      ← Nat.add_assoc] at stop body jump other
    have tests := trims.tests high placedIn (r := r) placed.left.left.left live short.1 (by omega)
    refine tests.andThen lasting extends' fun holds n pc r' stands => ?_
    cases holds with
    | true =>
      obtain ⟨rfl, next, rfl⟩ := stands
      have runs := hyes lasting placedIn below short.2.1 body next within
      refine runs.finally lasting (yes.exec_within _ most) fun e k pc r' arrives => ?_
      cases e with
      | done =>
        obtain ⟨rfl, last, rfl⟩ := arrives
        exact trims.jumps placedIn jump last stop fun next => .pure _ ⟨rfl, next, rfl⟩
      | leaves isBreak => exact .pure _ arrives
      | unfinished => exact .pure _ (Nat.le_trans arrives (by omega))
    | false =>
      obtain ⟨rfl, next, rfl⟩ := stands
      exact (hno lasting placedIn below short.2.2 other next within).mono
        fun e k pc r' arrives => arrives.later (by omega) fun _ => ⟨rfl, rfl⟩

/-- What stands behind the body of a loop leads back to its start. -/
theorem Trimming.goesBack {post : Option Assignment} {top next : Nat} {e : Ending}
    (lasting : Lasting P) (placedIn : ∀ s, P s → s.code c.code = trimmed)
    (placed : Placed code next (codeIfAny spell next post ++ [⟨.branch, .address top⟩]))
    (live : kept next) (short : ∀ a ∈ post, a.value.Short) (le : top ≤ code.size)
    (again : e = .done ∨ e = .leaves false) :
    Executes c P (move next) r (afterBody ⟨c.strictness, r, spell⟩ post e) fun o n pc r' =>
      o = none ∧ 0 < n ∧ pc = move top ∧ r' = r := by
  have assigns (line : Nat) (w : World) := trims.assignsIfAny (c := c.spot 0 r line) (w := w)
    placed.left live short high
  have executes : Executes c P (move next) r
      (execIfAny ⟨c.strictness, r, spell⟩ post : WorldM Unit) fun _ _ =>
      Stands move kept (next + (codeIfAny spell next post).length) r :=
    .lift (fun line w => (assigns line w).2) placedIn fun _ _ => ⟨rfl, (assigns 0 {}).1, rfl⟩
  have goesOn : Executes c P (move next) r
      (do execIfAny ⟨c.strictness, r, spell⟩ post; pure none : WorldM (Option Ending))
      fun o n pc r' => o = none ∧ 0 < n ∧ pc = move top ∧ r' = r := by
    refine executes.andThen lasting (.lift (execIfAny_within _ post)) ?_
    rintro _ n _ _ ⟨rfl, last, rfl⟩
    exact trims.jumps placedIn placed.right.head last le
      fun _ => .pure _ ⟨rfl, by omega, rfl, rfl⟩
  obtain rfl | rfl := again
  · exact goesOn
  · exact goesOn

theorem Simulated.cycle {body : Stmt} (h : Simulated code trimmed move kept c spell most body)
    (test : Option Expr) (post : Option Assignment) :
    Simulated code trimmed move kept c spell most (.cycle test post body) := by
  intro P start last depth target r outer lasting placedIn below short placed live within
  obtain ⟨passed, hpassed⟩ : ∃ slots, slots =
    body.slots spell (start + (testCode spell start 0 test).length) last 0 := ⟨_, rfl⟩
  obtain ⟨next, hnext⟩ : ∃ a, a = start + (testCode spell start 0 test).length + passed.length :=
    ⟨_, rfl⟩
  obtain ⟨exit, hexit⟩ : ∃ a, a = next + (codeIfAny spell next post).length + 1 := ⟨_, rfl⟩
  let leads (isBreak : Bool) : Nat := bif isBreak then exit else next
  have slots : (Stmt.cycle test post body).slots spell start last depth =
      plain (testCode spell start exit test ++ fill leads passed ++
        (codeIfAny spell next post ++ [⟨.branch, .address start⟩])) := by
    subst hexit hnext hpassed
    simp only [Stmt.slots, List.append_assoc]
    rfl
  have length := testCode_length spell start 0 exit test
  rw [length] at hpassed hnext
  rw [slots, fill_plain] at placed
  have behind : start + (testCode spell start exit test ++ fill leads passed).length = next := by
    rw [List.length_append, fill_length, hnext, Nat.add_assoc]
  have stop : start + ((Stmt.cycle test post body).slots spell start last depth).length = exit := by
    rw [slots, plain_length, List.length_append, ← Nat.add_assoc, behind, hexit]
    simp [Nat.add_assoc]
  have size := placed.within (by simp)
  rw [← plain_length, ← slots, stop] at size
  have back := placed.right
  rw [behind] at back
  have inner : Placed code _ (fill leads passed) := placed.left.right
  rw [hpassed] at inner
  have le : start ≤ code.size := by omega
  have leadsWithin (isBreak : Bool) : leads isBreak ≤ code.size := by
    cases isBreak with
    | true => exact size
    | false => exact Nat.le_trans (by omega : next ≤ exit) size
  -- a pass comes back to the start, or leads out of the loop
  have pass (before : Nat) : Executes c P (move start) r
      (onePass ⟨c.strictness, r, spell⟩ test post (body.exec ⟨c.strictness, r, spell⟩ most))
      fun o n pc r' => (o = none → 0 < n ∧ pc = move start ∧ r' = r) ∧
        ∀ e, o = some e → Arrives move kept most exit target r outer e (before + n) pc r' := by
    have tests := trims.testsIfAny high placedIn (r := r) placed.left.left live short.1 size
    refine tests.andThen lasting (.lift (holdsIfAny_within _ test)) fun holds n pc r' stands => ?_
    cases holds with
    | false =>
      refine .pure _ ⟨by rintro ⟨⟩, ?_⟩
      rintro _ ⟨⟩
      exact stands
    | true =>
      obtain ⟨rfl, begun, rfl⟩ := stands
      have runs : Executes c P (move (start + (testCode spell start exit test).length)) r'
          (body.exec ⟨c.strictness, r', spell⟩ most) (Arrives move kept most next leads r' r') := by
        rw [hnext, hpassed]
        exact h lasting placedIn (fun _ _ => rfl) short.2.2 inner begun leadsWithin
      refine runs.andThen lasting (body.exec_within _ most) fun e k pc r' arrives => ?_
      cases e with
      | done =>
        obtain ⟨rfl, last, rfl⟩ := arrives
        refine (trims.goesBack high lasting placedIn back last short.2.1 le (.inl rfl)).mono ?_
        rintro _ k' _ _ ⟨rfl, some, rfl, rfl⟩
        exact ⟨fun _ => ⟨by omega, rfl, rfl⟩, by rintro _ ⟨⟩⟩
      | leaves isBreak =>
        obtain ⟨rfl, last, rfl⟩ := arrives
        cases isBreak with
        | false =>
          refine (trims.goesBack high lasting placedIn back last short.2.1 le (.inr rfl)).mono ?_
          rintro _ k' _ _ ⟨rfl, some, rfl, rfl⟩
          exact ⟨fun _ => ⟨by omega, rfl, rfl⟩, by rintro _ ⟨⟩⟩
        | true =>
          refine .pure _ ⟨by rintro ⟨⟩, ?_⟩
          rintro _ ⟨⟩
          exact ⟨rfl, last, rfl⟩
      | unfinished =>
        refine .pure _ ⟨by rintro ⟨⟩, ?_⟩
        rintro _ ⟨⟩
        exact Nat.le_trans arrives (by omega)
  rw [stop]
  have all : Executes c P (move start) r ((Stmt.cycle test post body).exec
      ⟨c.strictness, r, spell⟩ most) fun e n pc r' =>
      Arrives move kept most exit target r outer e (0 + n) pc r' :=
    .passes lasting (onePass_within _ test post (body.exec_within _ most)) pass
      (fun _ _ _ le => le) (by omega)
  simpa only [Nat.zero_add] using all

/-- The code of a statement leads to where the interpreter says that the statement does. -/
theorem Stmt.executes (off : c.debugger = {}) (s : Stmt) :
    Simulated code trimmed move kept c spell most s := by
  induction s with
  | nothing => exact Simulated.nothing most
  | next line first rest one others => exact Simulated.next trims most off one others line
  | assign a => exact Simulated.assign trims high most a
  | print es => exact Simulated.print trims high most es
  | inScope opening body h => exact Simulated.inScope trims high most h opening
  | branch test yes no hyes hno => exact Simulated.branch trims high most hyes hno test
  | cycle test post body h => exact Simulated.cycle trims high most h test post
  | leave isBreak => exact Simulated.leave trims most isBreak

end

end StackScript

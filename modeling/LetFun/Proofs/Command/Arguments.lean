import LetFun.Command.Request
/-!
# What requests are made of

A value in a request is one that some argument is or has attached, or there is none if
what is attached is dropped.  So what every option keeps of a request, given such
values, holds of the request that all arguments come to.

Results:
* `Progress.Keeps.takeAll`, `Request.of_ofArgs`: what every option keeps, all arguments keep.
* `Request.pathsHold_ofArgs`: what holds of all characters of the arguments holds of those of
  the paths.
* `Request.isSome_format_ofArgs`: by the second edition there is always a format.
-/
namespace LetFun.Command

variable {P : Char → Prop} {edition : Edition}

/-- A sequence of two steps that succeeds is two steps that do. -/
theorem exists_of_bind_ok {ε α β : Type} {x : Except ε α} {f : α → Except ε β} {b : β}
    (h : x >>= f = .ok b) : ∃ a, x = .ok a ∧ f a = .ok b := by
  cases x with
  | error e => cases h
  | ok a => exact ⟨a, rfl, h⟩

/-- The characters that are attached. -/
def Attached.chars : Attached → List Char
  | nothing => []
  | tail cs | letterValue cs | wordValue cs => cs

/-- The characters of an argument's values. -/
def Arg.chars : Arg → List Char
  | value s | unknown s => s.toList
  | option _ attached => attached.chars
  | separator => []

theorem Attached.chars_behindEquals (spelling behind : List Char) :
    (behindEquals spelling behind).chars = behind := by
  unfold behindEquals
  split <;> rfl

theorem chars_cutEquals (cs : List Char) : (cutEquals cs).2.chars ⊆ cs := by
  unfold cutEquals
  split
  · next c behind h =>
    have hsub : c :: behind ⊆ cs := h ▸ (List.dropWhile_sublist _).subset
    rw [Attached.chars_behindEquals]
    exact List.Subset.trans (List.subset_cons_self c behind) hsub
  · exact List.nil_subset _

theorem chars_candidates {cs : List Char} {s : String} {arg : Arg} (h : (s, arg) ∈ candidates cs) :
    arg.chars ⊆ cs := by
  unfold candidates at h
  split at h
  · obtain ⟨_, -, heq⟩ := List.mem_map.1 h
    cases heq
    exact chars_cutEquals _
  · next c tail _ =>
    split at h
    · cases List.mem_singleton.1 h
      exact List.Subset.trans (List.subset_cons_self c tail) (List.subset_cons_self ..)
    · cases h
  · cases h

theorem Arg.chars_read {s : String} {arg : Arg} (h : Arg.read s = .ok arg) :
    arg.chars ⊆ s.toList := by
  have hcut := chars_cutEquals s.toList
  simp only [read] at h
  split at h
  · split at h
    · cases h
      exact List.nil_subset _
    · cases h
      exact hcut
    · split at h
      · split at h <;> (cases h; exact List.Subset.refl _)
      · next spelling arg' hcandidates =>
        cases h
        exact chars_candidates (hcandidates ▸ List.mem_singleton_self _)
      · cases h
  · cases h
    exact List.Subset.refl _

theorem Arg.chars_readAll {args : List String} {read : List Arg} (h : readAll args = .ok read)
    (hargs : ∀ s ∈ args, ∀ c ∈ s.toList, P c) : ∀ arg ∈ read, ∀ c ∈ arg.chars, P c := by
  induction args generalizing read with
  | nil =>
    cases h
    exact List.forall_mem_nil _
  | cons s rest ih =>
    rw [List.forall_mem_cons] at hargs
    rw [readAll] at h
    split at h
    · cases h
      rw [List.forall_mem_cons, List.forall_mem_map]
      exact ⟨List.forall_mem_nil _, hargs.2⟩
    · obtain ⟨arg, hs, h⟩ := exists_of_bind_ok h
      obtain ⟨read', hrest, h⟩ := exists_of_bind_ok h
      cases h
      exact List.forall_mem_cons.2 ⟨fun c hc => hargs.1 c (chars_read hs hc), ih hrest hargs.2⟩

/-! ## Bundles -/

namespace Bundle

/-- A bundle is made of characters: its options but the last take no value, and a value that is
attached is made of some of the characters. -/
structure MadeOf (edition : Edition) (cs : List Char) (b : Bundle) : Prop where
  switches : ∀ o ∈ b.switches, o.takesValue = false
  value : ∀ o value, b.ending = .attached o value → ∃ behind ⊆ cs, value = valueOf edition behind

variable {o : Opt} {cs cs' : List Char} {b : Bundle}

theorem MadeOf.mono (h : b.MadeOf edition cs) (hcs : cs ⊆ cs') : b.MadeOf edition cs' where
  switches := h.switches
  value o value hb := by
    obtain ⟨behind, hbehind, hvalue⟩ := h.value o value hb
    exact ⟨behind, List.Subset.trans hbehind hcs, hvalue⟩

theorem madeOf_bare (o : Opt) (cs : List Char) : (bare o).MadeOf edition cs := by
  unfold bare
  split
  · exact ⟨by simp, by simp⟩
  · next hswitch => exact ⟨by simpa using hswitch, by simp⟩

theorem madeOf_ofValue (h : ofValue edition o cs = .ok b) : b.MadeOf edition cs := by
  unfold ofValue at h
  split at h
  · cases h
    refine ⟨by simp, ?_⟩
    rintro _ value ⟨⟩
    exact ⟨cs, List.Subset.refl cs, rfl⟩
  · cases h

theorem madeOf_ofTail (h : ofTail edition o cs = .ok b) : b.MadeOf edition cs := by
  induction cs generalizing o b with
  | nil =>
    cases h
    exact madeOf_bare o []
  | cons c cs ih =>
    have hcs : cs ⊆ c :: cs := List.subset_cons_self c cs
    rw [ofTail] at h
    split at h
    · exact (madeOf_ofValue h).mono hcs
    · split at h
      · exact madeOf_ofValue h
      · next hswitch =>
        split at h
        · obtain ⟨b', htail, h⟩ := exists_of_bind_ok h
          cases h
          obtain ⟨hswitches, hvalue⟩ := (ih htail).mono hcs
          exact ⟨List.forall_mem_cons.2 ⟨by simpa using hswitch, hswitches⟩, hvalue⟩
        · split at h
          · cases h
            exact ⟨by simpa using hswitch, by simp⟩
          · exact madeOf_ofValue h

theorem madeOf_ofAttached {attached : Attached} (h : ofAttached edition o attached = .ok b) :
    b.MadeOf edition attached.chars := by
  cases attached with
  | nothing =>
    cases h
    exact madeOf_bare o []
  | tail cs => exact madeOf_ofTail h
  | letterValue cs =>
    rw [ofAttached] at h
    split at h
    · exact madeOf_ofTail h
    · exact madeOf_ofValue h
  | wordValue cs => exact madeOf_ofValue h

theorem toList_of_valueOf {value : String} (h : some value = valueOf edition cs) :
    value.toList = cs := by
  unfold valueOf at h
  split at h <;> cases h
  exact String.toList_ofList

end Bundle

/-- The values that an argument can give. -/
def Arg.Gives (edition : Edition) : Arg → Option String → Prop
  | value s, v => v = some s
  | option _ attached, v => ∃ behind ⊆ attached.chars, v = Bundle.valueOf edition behind
  | _, _ => False

theorem Arg.gives_of_ofAttached {o o' : Opt} {attached : Attached} {b : Bundle}
    {value : Option String} (h : Bundle.ofAttached edition o attached = .ok b)
    (hb : b.ending = .attached o' value) : (option o attached).Gives edition value :=
  (Bundle.madeOf_ofAttached h).value o' value hb

/-! ## Requests -/

namespace Progress

variable {I : Request → Prop} {V : Option String → Prop} {p p' : Progress}

/-- Every option keeps what holds of a request, if its value is as it should be or it takes none. -/
def Keeps (I : Request → Prop) (V : Option String → Prop) : Prop :=
  ∀ (p p' : Progress) (o : Opt) (value : Option String), I p.request →
    (o.takesValue = true → V value) → p.set o value = .ok p' → I p'.request

theorem Keeps.take (hkeeps : Keeps I V) {o : Opt} {value : Option String} (hp : I p.request)
    (hvalue : o.takesValue = true → V value) (h : p.take o value = .ok p') : I p'.request := by
  unfold Progress.take at h
  split at h
  · split at h
    · split at h
      · exact hkeeps p p' o value hp hvalue h
      · cases h
    · exact hkeeps { p with source := some o } p' o value hp hvalue h
  · exact hkeeps p p' o value hp hvalue h

theorem Keeps.takeSwitches (hkeeps : Keeps I V) {os : List Opt}
    (hos : ∀ o ∈ os, o.takesValue = false) (hp : I p.request)
    (h : p.takeSwitches os = .ok p') : I p'.request := by
  induction os generalizing p with
  | nil =>
    cases h
    exact hp
  | cons o os ih =>
    obtain ⟨ho, hos⟩ := List.forall_mem_cons.1 hos
    rw [Progress.takeSwitches, List.foldlM_cons] at h
    obtain ⟨q, htake, h⟩ := exists_of_bind_ok h
    exact ih hos (hkeeps.take hp (by simp [ho]) htake) h

/-- Arguments keep what every option keeps, if the values that they give are as they should be. -/
theorem Keeps.takeAll (hkeeps : Keeps I V) {args : List Arg}
    (hargs : ∀ arg ∈ args, ∀ value, arg.Gives edition value → V value) (hp : I p.request)
    (h : p.takeAll edition args = .ok p') : I p'.request := by
  fun_induction Progress.takeAll edition p args with
  | case1 p =>
    cases h
    exact hp
  | case2 p s rest ih | case3 p s rest ih | case4 p rest ih =>
    exact ih (List.forall_mem_cons.1 hargs).2 hp h
  | case5 => cases h
  | case6 p o attached rest switches hb ih =>
    obtain ⟨q, hq, h⟩ := exists_of_bind_ok h
    have hswitches := (Bundle.madeOf_ofAttached hb).switches
    exact ih q (List.forall_mem_cons.1 hargs).2 (hkeeps.takeSwitches hswitches hp hq) h
  | case7 p o attached rest switches s hb ih =>
    obtain ⟨q, hq, h⟩ := exists_of_bind_ok h
    have hswitches := (Bundle.madeOf_ofAttached hb).switches
    have hleave : I (p.leave s).request := hp
    exact ih q (List.forall_mem_cons.1 hargs).2 (hkeeps.takeSwitches hswitches hleave hq) h
  | case8 p o attached rest switches o' value hb ih =>
    obtain ⟨q, hq, h⟩ := exists_of_bind_ok h
    obtain ⟨q', hq', h⟩ := exists_of_bind_ok h
    obtain ⟨hgiven, hrest⟩ := List.forall_mem_cons.1 hargs
    have hswitches := (Bundle.madeOf_ofAttached hb).switches
    have hvalue : V value := hgiven value (Arg.gives_of_ofAttached hb rfl)
    exact ih q' hrest (hkeeps.take (hkeeps.takeSwitches hswitches hp hq) (fun _ => hvalue) hq') h
  | case9 p o attached switches o' hb s rest ih =>
    obtain ⟨q, hq, h⟩ := exists_of_bind_ok h
    obtain ⟨q', hq', h⟩ := exists_of_bind_ok h
    obtain ⟨-, hgiven, hrest⟩ := List.forall_mem_cons.1 hargs |>.imp_right List.forall_mem_cons.1
    have hswitches := (Bundle.madeOf_ofAttached hb).switches
    have hvalue : V (some s) := hgiven (some s) rfl
    exact ih q' hrest (hkeeps.take (hkeeps.takeSwitches hswitches hp hq) (fun _ => hvalue) hq') h
  | case10 => cases h

end Progress

namespace Request

variable {args : List String} {r : Request}

/-- What every option keeps holds of the request that is read, if it holds to begin with. -/
theorem of_ofArgs {I : Request → Prop} {V : Option String → Prop} (hkeeps : Progress.Keeps I V)
    (hvalues : ∀ read, Arg.readAll args = .ok read →
      ∀ arg ∈ read, ∀ value, arg.Gives edition value → V value)
    (hinitial : I initial) (h : ofArgs edition args = .ok r) : I r := by
  obtain ⟨read, hread, h⟩ := exists_of_bind_ok h
  obtain ⟨p, hp, h⟩ := exists_of_bind_ok h
  split at h
  · cases h
    have hread' : Arg.readAll args = .ok read := by
      cases hall : Arg.readAll args <;> rw [hall] at hread <;> cases hread
      rfl
    exact hkeeps.takeAll (hvalues read hread') hinitial hp
  · cases h

/-- The characters of the paths in a request are as they should be. -/
def PathsHold (P : Char → Prop) (r : Request) : Prop :=
  (∀ path ∈ r.file, ∀ c ∈ path.toList, P c) ∧ (∀ path ∈ r.json, ∀ c ∈ path.toList, P c) ∧
    ∀ path ∈ r.viz, ∀ c ∈ path.toList, P c

theorem pathsHold_initial : initial.PathsHold P := by simp [PathsHold, initial]

theorem keeps_pathsHold :
    Progress.Keeps (PathsHold P) fun value => ∀ v ∈ value, ∀ c ∈ v.toList, P c := by
  intro p p' o value hp hvalue h
  obtain ⟨hfile, hjson, hviz⟩ := hp
  cases o with
  | help => cases h
  | file =>
    cases h
    exact ⟨hvalue rfl, hjson, hviz⟩
  | json =>
    cases h
    exact ⟨hfile, hvalue rfl, hviz⟩
  | viz =>
    cases h
    exact ⟨hfile, hjson, hvalue rfl⟩
  | expr | interactive | printTokens | noAst | vizFormat | verbose =>
    cases h
    exact ⟨hfile, hjson, hviz⟩

/-- What holds of all characters of the arguments holds of those of the paths. -/
theorem pathsHold_ofArgs (h : ofArgs edition args = .ok r)
    (hargs : ∀ s ∈ args, ∀ c ∈ s.toList, P c) : r.PathsHold P := by
  refine of_ofArgs keeps_pathsHold (fun read hread arg harg value hgives => ?_) pathsHold_initial h
  have hchars := Arg.chars_readAll hread hargs arg harg
  rintro v rfl
  cases arg with
  | value s =>
    cases hgives
    exact hchars
  | option o attached =>
    obtain ⟨behind, hbehind, hvalue⟩ := hgives
    rw [Bundle.toList_of_valueOf hvalue]
    exact fun c hc => hchars c (hbehind hc)
  | unknown | separator => cases hgives

theorem keeps_format :
    Progress.Keeps (fun r => r.format.isSome = true) fun value => value.isSome = true := by
  intro p p' o value hp hvalue h
  cases o with
  | help => cases h
  | vizFormat =>
    cases h
    exact hvalue rfl
  | file | expr | interactive | printTokens | noAst | json | viz | verbose =>
    cases h
    exact hp

/-- By the second edition of the rules no value is dropped, so a drawing always has a format. -/
theorem isSome_format_ofArgs (h : ofArgs .second args = .ok r) : r.format.isSome = true := by
  refine of_ofArgs keeps_format (fun read _ arg _ value hgives => ?_) rfl h
  cases arg with
  | value s =>
    cases hgives
    rfl
  | option o attached =>
    obtain ⟨behind, -, rfl⟩ := hgives
    rfl
  | unknown | separator => cases hgives

end Request
end LetFun.Command

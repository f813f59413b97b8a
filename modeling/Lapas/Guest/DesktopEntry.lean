import Mathlib.Data.List.Sort
import Lapas.Library.PyText

/-!
# Desktop entries

The launcher of a shortcut is a file with one line for each key.  A value is written as it is,
so that one with a line break goes on in lines of its own.

## Main definitions

* `Value`, `Dict`, `merge` — the values by key, in order.
* `generate` — the content of a file.
* `execs`, `further` — the lines of a file that say what is executed, and those that a value adds.

## Main results

* `execs_generate` — the lines of a launcher that say what is executed.
* `execs_generate_iff` — when there is one, and it is the command.
* `encodable_generate` — when a launcher can be written.
-/

namespace Lapas
namespace Guest

/-! ### The writer -/

/-- A value of a key: nothing, a text, or a list of texts. -/
inductive Value
  | none
  | text (value : PyStr)
  | list (values : List PyStr)
  deriving DecidableEq

/-- The keys of an entry with their values, in the order in which they have been put in. -/
abbrev Dict := List (String × Value)

/-- `values[key] = value`: an existing key keeps its place in the order, a new key comes last. -/
def Dict.set (dict : Dict) (key : String) (value : Value) : Dict :=
  if dict.any (·.1 = key) then dict.map fun kv => if kv.1 = key then (key, value) else kv
  else dict ++ [(key, value)]

/-- `{ **dict, **args }`: the keys of the first dictionary stay in front, the values of the second
one win. -/
def Dict.merge (dict args : Dict) : Dict := args.foldl (fun dict kv => dict.set kv.1 kv.2) dict

/-- The keys that every launcher starts with; the last value has a comma in it. -/
def launcherTemplateDefaultargs : Dict :=
  [("Type", .text (lit "Application")), ("Terminal", .text (lit "false")),
    ("NoDisplay", .text (lit "false")), ("Categories", .text (lit "Game")),
    ("StartupNotify", .text (lit "true")), ("PrefersNonDefaultGPU", .text (lit "true,"))]

section

variable (setOrder : List PyStr → List PyStr)

/-- What is written for a value; `setOrder` is the order in which a set is run through. -/
def Value.str : Value → Option PyStr
  | .none => Option.none
  | .text value => some value
  | .list values => some ((lit ";").intercalate (setOrder values.dedup))

/-- The values of a launcher, sorted by the length of their keys. -/
def launcherValues (execCmd : PyStr) (args : Dict) : Dict :=
  ((launcherTemplateDefaultargs.merge args).set "Exec" (.text execCmd)).insertionSort
    fun kv kv' => kv.1.length ≤ kv'.1.length

/-- The line of a value: the key, an equals sign and the text of the value. A value of `None` has no
line. -/
def launcherLine (kv : String × Value) : Option PyStr :=
  (kv.2.str setOrder).map fun value => lit kv.1 ++ lit "=" ++ value

/-- The content that `generate` writes for a command: the group header, the lines of the values and
a newline at the end. -/
def generate (execCmd : PyStr) (args : Dict) : PyStr :=
  let lines := lit "[Desktop Entry]" :: (launcherValues execCmd args).filterMap
    (launcherLine setOrder)
  (lit "\n").intercalate lines ++ lit "\n"

end

/-! ### The reader -/

/-- The end of a line, with which `generate` joins the lines and at which a reader of the file
splits them again. -/
def newline : PyChar := .char '\n'

/-- The lines of a file that say what is executed. -/
def execs (content : PyStr) : List PyStr :=
  (content.splitOn newline).filter (lit "Exec=").isPrefixOf

/-- What a value adds to these lines. -/
def further (value : PyStr) : List PyStr :=
  (value.splitOn newline).tail.filter (lit "Exec=").isPrefixOf

/-! ### Reading what has been written -/

theorem execs_append_newline (line rest : PyStr) :
    execs (line ++ lit "\n" ++ rest) = execs line ++ execs rest := by
  have hsplit : (line ++ newline :: rest).splitOn newline =
      line.splitOn newline ++ rest.splitOn newline := List.splitOn_append_cons_self line rest
  rw [execs, List.append_assoc]
  show ((line ++ newline :: rest).splitOn newline).filter _ = _
  rw [hsplit, List.filter_append]
  rfl

/-- The lines of a file are those of its entries. -/
theorem execs_lines (line : PyStr) (lines : List PyStr) :
    execs ((lit "\n").intercalate (line :: lines) ++ lit "\n") =
      execs line ++ lines.flatMap execs := by
  induction lines generalizing line with
  | nil =>
    have hlast := execs_append_newline line []
    rw [List.append_nil] at hlast
    rw [List.intercalate_singleton, hlast]
    rfl
  | cons next lines ih =>
    rw [List.intercalate_cons_cons, List.append_assoc, execs_append_newline, ih next]
    rfl

theorem execs_entry {start : PyStr} (hnewline : newline ∉ start)
    (hstart : ∀ piece, (lit "Exec=").isPrefixOf (start ++ piece) = false) (value : PyStr) :
    execs (start ++ value) = further value := by
  obtain ⟨piece, pieces, hpieces⟩ := List.exists_cons_of_ne_nil (List.splitOn_ne_nil newline value)
  rw [execs, splitOn_append_of_notMem hnewline, further, hpieces, List.modifyHead_cons,
    List.filter_cons_of_neg (by rw [hstart]; exact Bool.false_ne_true), List.tail_cons]

theorem execs_exec {value piece : PyStr} {pieces : List PyStr}
    (h : value.splitOn newline = piece :: pieces) :
    execs (lit "Exec=" ++ value) = (lit "Exec=" ++ piece) :: further value := by
  have hexec : (lit "Exec=").isPrefixOf (lit "Exec=" ++ piece) = true :=
    List.isPrefixOf_iff_prefix.mpr (List.prefix_append _ _)
  rw [execs, splitOn_append_of_notMem (by decide), further, h, List.modifyHead_cons,
    List.filter_cons_of_pos hexec, List.tail_cons]

/-! ### Launchers -/

/-- The arguments that a launcher passes to `generate` for a shortcut; the other keys are the
defaults of the function. -/
def launcherArgs (name icon comment keywords : Value) : Dict :=
  [("Name", name), ("Icon", icon), ("Comment", comment), ("Keywords", keywords)]

/-- What a value adds to the lines that say what is executed. -/
def Value.further (setOrder : List PyStr → List PyStr) (value : Value) : List PyStr :=
  (value.str setOrder).elim [] Guest.further

section

variable {setOrder : List PyStr → List PyStr} {cmd : PyStr} {name icon comment keywords : Value}

theorem keyLengths :
    "Type".length = 4 ∧ "Terminal".length = 8 ∧ "NoDisplay".length = 9 ∧
      "Categories".length = 10 ∧ "StartupNotify".length = 13 ∧
      "PrefersNonDefaultGPU".length = 20 ∧ "Name".length = 4 ∧ "Icon".length = 4 ∧
      "Comment".length = 7 ∧ "Keywords".length = 8 ∧ "Exec".length = 4 := by decide

theorem launcherValues_eq :
    launcherValues cmd (launcherArgs name icon comment keywords) =
      [("Type", .text (lit "Application")), ("Name", name), ("Icon", icon), ("Exec", .text cmd),
        ("Comment", comment), ("Terminal", .text (lit "false")), ("Keywords", keywords),
        ("NoDisplay", .text (lit "false")), ("Categories", .text (lit "Game")),
        ("StartupNotify", .text (lit "true")), ("PrefersNonDefaultGPU", .text (lit "true,"))] := by
  have hmerge : (launcherTemplateDefaultargs.merge (launcherArgs name icon comment keywords)).set
      "Exec" (.text cmd) = launcherTemplateDefaultargs ++
        launcherArgs name icon comment keywords ++ [("Exec", .text cmd)] := by
    simp [launcherTemplateDefaultargs, launcherArgs, Dict.merge, Dict.set]
  rw [launcherValues, hmerge]
  simp [launcherTemplateDefaultargs, launcherArgs, List.insertionSort_cons, List.orderedInsert,
    keyLengths]

/-- Another key than `Exec`, by its first letter, and without a newline: only a line break of its
value can add a line for `Exec`. -/
def OtherKey (key : String) : Prop :=
  newline ∉ lit key ++ lit "=" ∧ ∃ c ∈ (lit key).head?, c ≠ .char 'E'

instance (key : String) : Decidable (OtherKey key) := by
  unfold OtherKey; infer_instance

theorem flatMap_launcherLine {key : String} (hkey : OtherKey key) (value : Value) :
    (launcherLine setOrder (key, value)).toList.flatMap execs = value.further setOrder := by
  have hstart : ∀ piece, (lit "Exec=").isPrefixOf (lit key ++ lit "=" ++ piece) = false := by
    intro piece
    obtain ⟨-, c, hhead, hc⟩ := hkey
    obtain ⟨rest, hrest⟩ : ∃ rest, lit key = c :: rest := by
      cases hlit : lit key with
      | nil => rw [hlit] at hhead; cases hhead
      | cons d rest =>
        rw [hlit] at hhead
        exact ⟨rest, by rw [Option.some.inj hhead]⟩
    rw [hrest, Bool.eq_false_iff]
    intro h
    exact hc (List.cons_prefix_cons.mp (List.isPrefixOf_iff_prefix.mp h)).1.symm
  rw [launcherLine, Value.further]
  cases value.str setOrder with
  | none => rfl
  | some text =>
    rw [Option.map_some, Option.toList_some, List.flatMap_singleton, execs_entry hkey.1 hstart]
    rfl

/-- What a launcher says about what is executed. -/
theorem execs_generate {piece : PyStr} {pieces : List PyStr}
    (h : cmd.splitOn newline = piece :: pieces) :
    execs (generate setOrder cmd (launcherArgs name icon comment keywords)) =
      name.further setOrder ++ (icon.further setOrder ++ ((lit "Exec=" ++ piece) :: further cmd ++
        (comment.further setOrder ++ keywords.further setOrder))) := by
  have hexec : (launcherLine setOrder ("Exec", .text cmd)).toList.flatMap execs =
      (lit "Exec=" ++ piece) :: further cmd := by
    have hkey : lit "Exec" ++ lit "=" = lit "Exec=" := rfl
    show execs (lit "Exec" ++ lit "=" ++ cmd) ++ [] = _
    rw [List.append_nil, hkey, execs_exec h]
  have hconst : ∀ text ∈ ["Application", "false", "Game", "true", "true,"],
      Guest.further (lit text) = [] := by decide
  have htext : ∀ text, (Value.text text).further setOrder = Guest.further text := fun _ => rfl
  rw [generate, execs_lines, launcherValues_eq, List.filterMap_eq_flatMap_toList,
    List.flatMap_assoc]
  simp (disch := decide) only [List.flatMap_cons, List.flatMap_nil, hexec, flatMap_launcherLine,
    htext, hconst, List.append_nil, List.nil_append]
  rfl

theorem piece_of_splitOn {piece : PyStr} {pieces : List PyStr}
    (h : cmd.splitOn newline = piece :: pieces) : piece <+: cmd ∧ newline ∉ piece := by
  by_cases hmem : newline ∈ cmd
  · obtain ⟨before, after, rfl, hbefore⟩ := List.eq_append_cons_of_mem hmem
    rw [List.splitOn_append_cons_self_of_not_mem hbefore] at h
    rw [← (List.cons.inj h).1]
    exact ⟨List.prefix_append _ _, hbefore⟩
  · rw [List.splitOn_eq_singleton hmem] at h
    rw [← (List.cons.inj h).1]
    exact ⟨List.prefix_rfl, hmem⟩

/-- **A launcher has one line that says what is executed,** when neither the command nor another
value adds such a line behind a line break. -/
theorem execs_generate_iff {line : PyStr} :
    execs (generate setOrder cmd (launcherArgs name icon comment keywords)) =
        [lit "Exec=" ++ line] ↔
      (∃ pieces, cmd.splitOn newline = line :: pieces) ∧ further cmd = [] ∧
        ∀ value ∈ [name, icon, comment, keywords], value.further setOrder = [] := by
  obtain ⟨piece, pieces, hpieces⟩ := List.exists_cons_of_ne_nil (List.splitOn_ne_nil newline cmd)
  rw [execs_generate hpieces, hpieces]
  constructor
  · intro h
    have hlengths := congrArg List.length h
    simp only [List.length_append, List.length_cons, List.length_nil] at hlengths
    have hname : name.further setOrder = [] := List.length_eq_zero_iff.mp (by omega)
    have hicon : icon.further setOrder = [] := List.length_eq_zero_iff.mp (by omega)
    have hcmd : further cmd = [] := List.length_eq_zero_iff.mp (by omega)
    have hcomment : comment.further setOrder = [] := List.length_eq_zero_iff.mp (by omega)
    have hkeywords : keywords.further setOrder = [] := List.length_eq_zero_iff.mp (by omega)
    rw [hname, hicon, List.nil_append, List.nil_append, List.cons_append] at h
    have hpiece : piece = line := List.append_cancel_left (List.cons.inj h).1
    exact ⟨⟨pieces, by rw [hpiece]⟩, hcmd, by simp [hname, hicon, hcomment, hkeywords]⟩
  · rintro ⟨⟨pieces', heq⟩, hcmd, hquiet⟩
    simp only [List.mem_cons, List.not_mem_nil, or_false, forall_eq_or_imp, forall_eq] at hquiet
    obtain ⟨hname, hicon, hcomment, hkeywords⟩ := hquiet
    rw [hname, hicon, hcmd, hcomment, hkeywords, (List.cons.inj heq).1]
    rfl

/-! ### Encoding -/

/-- The value can be written: the text that it is turned into has no surrogate, which the encoder of
the file refuses. -/
def Value.encodable (setOrder : List PyStr → List PyStr) (value : Value) : Bool :=
  (value.str setOrder).all Lapas.encodable

theorem encodable_intercalate {sep : PyStr} (hsep : encodable sep = true) (lines : List PyStr) :
    encodable (sep.intercalate lines) = lines.all encodable := by
  induction lines with
  | nil => rfl
  | cons line lines ih =>
    cases lines with
    | nil => rw [List.intercalate_singleton, List.all_cons, List.all_nil, Bool.and_true]
    | cons next lines =>
      rw [List.intercalate_cons_cons, encodable_append, encodable_append, ih, hsep, Bool.and_true,
        List.all_cons (a := line)]

theorem all_launcherLine (kv : String × Value) :
    (launcherLine setOrder kv).all encodable = kv.2.encodable setOrder := by
  rw [launcherLine, Value.encodable]
  cases kv.2.str setOrder with
  | none => rfl
  | some text => simp

/-- A launcher can be written, when its values can. -/
theorem encodable_generate :
    encodable (generate setOrder cmd (launcherArgs name icon comment keywords)) = true ↔
      encodable cmd = true ∧
        ∀ value ∈ [name, icon, comment, keywords], value.encodable setOrder = true := by
  have hlines : ∀ values : Dict, (values.filterMap (launcherLine setOrder)).all encodable =
      values.all fun kv => kv.2.encodable setOrder := by
    intro values
    induction values with
    | nil => rfl
    | cons kv values ih =>
      rw [List.all_cons, ← ih, ← all_launcherLine]
      cases h : launcherLine setOrder kv with
      | none => rw [List.filterMap_cons_none h, Option.all_none, Bool.true_and]
      | some line => rw [List.filterMap_cons_some h, List.all_cons, Option.all_some]
  have htext : ∀ text, (Value.text text).encodable setOrder = encodable text := fun _ => rfl
  rw [generate, encodable_append, encodable_intercalate (encodable_lit _), List.all_cons, hlines,
    launcherValues_eq]
  simp only [List.all_cons, List.all_nil, htext, encodable_lit, Bool.and_true, Bool.true_and,
    Bool.and_eq_true, List.forall_mem_cons, List.not_mem_nil, IsEmpty.forall_iff, implies_true,
    and_true]
  tauto

end

end Guest
end Lapas

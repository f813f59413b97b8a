import Lapas.Install.Bundle

/-!
# Payloads in the installer

The installer holds archives between pairs of marker lines.  `make.py` puts them there, and the
installer reads them out of its own text when it runs.

## Main definitions

* `Marker` — a marker, which `awk` takes literally.
* `awkBehind`, `tailFrom`, `headLines` — what the reader uses of `awk`, `tail` and `head`.
* `streamBinaryPayload` — the reader.
* `payloadBlock` — the lines that the bundle is made from.

## Main results

* `stream_append` — what the reader finds in a text with a payload.
* `stream_preprocess` — **what the installer reads is what the command has printed, exactly when
  no line of that begins with the marker.**
-/

namespace Lapas
namespace Install

open Proto

/-! ### The reader -/

/-- The marker is part of a pattern of `awk`; letters, digits and underscores stand for
themselves there. -/
structure Marker where
  name : Str
  ne_nil : name ≠ []
  isWord : name.all (fun c => c.isAlphanum || c = '_') = true

/-- A marker in the text of the installer. -/
def Marker.bytes (marker : Marker) : Bytes := utf8 marker.name

/-- `awk "/^marker/ { print NR + 1; exit 0; }"` -/
def awkBehind (marker : Marker) (text : Bytes) : Option ℕ :=
  ((keptLines 10 text).findIdx? marker.bytes.isPrefixOf).map (· + 2)

/-- `tail -n +start`; there is nothing when the number is missing. -/
def tailFrom (start : Option ℕ) (text : Bytes) : Bytes :=
  match start with
  | none => []
  | some start => ((keptLines 10 text).drop (start - 1)).flatten

/-- `head -n count`; less than zero is without so many lines at the end. -/
def headLines (count : ℤ) (text : Bytes) : Bytes :=
  match count with
  | .ofNat n => ((keptLines 10 text).take n).flatten
  | .negSucc n => ((keptLines 10 text).take ((keptLines 10 text).length - (n + 1))).flatten

/-- `streamBinaryPayload`, on the contents of the file. -/
def streamBinaryPayload (inputFile : Bytes) (payloadMarker : Marker) : Bytes :=
  let payloadStartLine := awkBehind payloadMarker inputFile
  let behindMarker := tailFrom payloadStartLine inputFile
  -- a number that is missing counts as 0
  let payloadLineCount : ℤ := ((awkBehind payloadMarker behindMarker).getD 0 : ℕ)
  let payloadLineCount := payloadLineCount - 2
  -- `head --bytes=-1`
  (headLines payloadLineCount behindMarker).dropLast

/-! ### Markers -/

theorem utf8_append (s t : Str) : utf8 (s ++ t) = utf8 s ++ utf8 t := by
  rw [utf8, utf8, utf8, utf8Bytes_ofList, utf8Bytes_ofList, utf8Bytes_ofList, List.flatMap_append]

theorem utf8_concat (s : Str) : utf8 (s ++ ['\n']) = utf8 s ++ newline := by
  rw [utf8_append]
  rfl

theorem ofNat_ne_newline {n : ℕ} (h : n ≠ 10) (h' : n < 256) : UInt8.ofNat n ≠ 10 := by
  intro heq
  have hn : (UInt8.ofNat n).toNat = n := UInt8.toNat_ofNat_of_lt' h'
  rw [heq] at hn
  exact h hn.symm

/-- A byte of an encoded character is the character itself, or at least 128. -/
theorem byte_cases {c : Char} {b : UInt8} (h : b ∈ String.utf8EncodeChar c) :
    (c.toNat ≤ 127 ∧ b = UInt8.ofNat c.toNat) ∨
      ∃ n, 128 ≤ n ∧ n < 256 ∧ b = UInt8.ofNat n := by
  rw [String.utf8EncodeChar] at h
  split at h
  · next hle => exact .inl ⟨hle, List.mem_singleton.mp h⟩
  refine .inr ?_
  split at h
  · simp only [List.mem_cons, List.not_mem_nil, or_false] at h
    rcases h with rfl | rfl <;> exact ⟨_, by omega, by omega, rfl⟩
  · split at h
    · simp only [List.mem_cons, List.not_mem_nil, or_false] at h
      rcases h with rfl | rfl | rfl <;> exact ⟨_, by omega, by omega, rfl⟩
    · simp only [List.mem_cons, List.not_mem_nil, or_false] at h
      rcases h with rfl | rfl | rfl | rfl <;> exact ⟨_, by omega, by omega, rfl⟩

/-- Only a newline is encoded with the byte of a newline. -/
theorem notMem_utf8 {s : Str} (h : '\n' ∉ s) : 10 ∉ utf8 s := by
  rw [utf8, utf8Bytes_ofList, List.mem_flatMap]
  rintro ⟨c, hc, hmem⟩
  rcases byte_cases hmem with ⟨hle, heq⟩ | ⟨n, hlow, hhigh, heq⟩
  · have hne : c.toNat ≠ '\n'.toNat := fun hten => h (Char.toNat_inj.mp hten ▸ hc)
    exact ofNat_ne_newline hne (by omega) heq.symm
  · exact ofNat_ne_newline (by omega) hhigh heq.symm

namespace Marker

variable (marker : Marker)

theorem notMem_name {c : Char} (hc : (c.isAlphanum || c = '_') = false) : c ∉ marker.name := by
  intro hmem
  exact Bool.false_ne_true (hc.symm.trans (List.all_eq_true.mp marker.isWord c hmem))

theorem newline_notMem : 10 ∉ marker.bytes := notMem_utf8 (marker.notMem_name (by decide))

theorem bytes_ne_nil : marker.bytes ≠ [] := by
  obtain ⟨c, name, heq⟩ := List.exists_cons_of_ne_nil marker.ne_nil
  rw [bytes, heq, utf8, utf8Bytes_ofList, List.flatMap_cons]
  exact List.append_ne_nil_of_left_ne_nil String.utf8EncodeChar_ne_nil _

/-- The line of a marker is not read as an instruction of `make.py`. -/
theorem head?_ne (rest : Str) : (marker.name ++ rest).head? ≠ some '#' := by
  obtain ⟨c, name, heq⟩ := List.exists_cons_of_ne_nil marker.ne_nil
  rw [heq]
  intro hhash
  refine marker.notMem_name (c := '#') (by decide) ?_
  rw [heq, ← Option.some.inj hhash]
  exact List.mem_cons_self

end Marker

/-! ### Reading -/

/-- The first line that begins with the marker. -/
theorem findIdx?_append_of_not {marker : Marker} {front : Bytes} (h : Terminated 10 front)
    (hfront : ¬ LineBegins 10 marker.bytes front) (rest : Bytes) :
    (keptLines 10 (front ++ (marker.bytes ++ 10 :: rest))).findIdx? marker.bytes.isPrefixOf =
      some (keptLines 10 front).length := by
  rw [keptLines_append h, keptLines_line marker.newline_notMem, List.findIdx?_append]
  have hnone : (keptLines 10 front).findIdx? marker.bytes.isPrefixOf = none := by
    rw [List.findIdx?_eq_none_iff]
    intro line hline
    apply Bool.eq_false_iff.mpr
    intro hbegins
    exact hfront ⟨line, hline, List.isPrefixOf_iff_prefix.mp hbegins⟩
  have hhead : marker.bytes.isPrefixOf (marker.bytes ++ [10]) = true :=
    List.isPrefixOf_iff_prefix.mpr (List.prefix_append marker.bytes [10])
  rw [hnone, Option.none_or, List.findIdx?_cons, if_pos hhead, Option.map_some, Nat.zero_add]

theorem headLines_ofNat (n : ℕ) (text : Bytes) :
    headLines (n : ℤ) text = ((keptLines 10 text).take n).flatten := rfl

/-- Behind the first marker. -/
theorem tailFrom_append {marker : Marker} {front : Bytes} (h : Terminated 10 front)
    (hfront : ¬ LineBegins 10 marker.bytes front) (rest : Bytes) :
    tailFrom (awkBehind marker (front ++ (marker.bytes ++ 10 :: rest)))
      (front ++ (marker.bytes ++ 10 :: rest)) = rest := by
  rw [awkBehind, findIdx?_append_of_not h hfront, Option.map_some, tailFrom,
    keptLines_append h, keptLines_line marker.newline_notMem]
  have hcount : (keptLines 10 front).length + 2 - 1 = (keptLines 10 front).length + 1 := by omega
  rw [hcount, List.drop_length_add_append, List.drop_succ_cons, List.drop_zero, flatten_keptLines]

/-- Up to the second marker, when no line of the payload looks like it. -/
theorem headLines_of_not {marker : Marker} {payload : Bytes} (h : Terminated 10 payload)
    (hpayload : ¬ LineBegins 10 marker.bytes payload) (rest : Bytes) :
    headLines (((awkBehind marker (payload ++ (marker.bytes ++ 10 :: rest))).getD 0 : ℕ) - 2)
      (payload ++ (marker.bytes ++ 10 :: rest)) = payload := by
  rw [awkBehind, findIdx?_append_of_not h hpayload, Option.map_some, Option.getD_some]
  have hcount : (((keptLines 10 payload).length + 2 : ℕ) : ℤ) - 2 =
      ((keptLines 10 payload).length : ℕ) := by omega
  rw [hcount, headLines_ofNat, keptLines_append h, List.take_left, flatten_keptLines]

/-- Otherwise the lines in front of the first one that looks like it. -/
theorem headLines_of_begins {marker : Marker} {payload : Bytes} (h : Terminated 10 payload)
    (hpayload : LineBegins 10 marker.bytes payload) (rest : Bytes) :
    ∃ n < (keptLines 10 payload).length,
      headLines (((awkBehind marker (payload ++ rest)).getD 0 : ℕ) - 2) (payload ++ rest) =
        ((keptLines 10 payload).take n).flatten := by
  obtain ⟨line, hline, hbegins⟩ := hpayload
  have hsome : ((keptLines 10 payload).findIdx? marker.bytes.isPrefixOf).isSome := by
    rw [List.findIdx?_isSome, List.any_eq_true]
    exact ⟨line, hline, List.isPrefixOf_iff_prefix.mpr hbegins⟩
  obtain ⟨n, hn⟩ := Option.isSome_iff_exists.mp hsome
  have hlt : n < (keptLines 10 payload).length := (List.findIdx?_eq_some_iff_getElem.mp hn).1
  refine ⟨n, hlt, ?_⟩
  rw [awkBehind, keptLines_append h, List.findIdx?_append, hn, Option.some_or, Option.map_some,
    Option.getD_some]
  have hcount : ((n + 2 : ℕ) : ℤ) - 2 = (n : ℕ) := by omega
  rw [hcount, headLines_ofNat, keptLines_append h, List.take_append_of_le_length (le_of_lt hlt)]

/-- **What the reader finds** in a text with a payload. -/
theorem stream_append {marker : Marker} {front payload : Bytes} (hfront : Terminated 10 front)
    (hno : ¬ LineBegins 10 marker.bytes front) (rest : Bytes) :
    streamBinaryPayload (front ++ (marker.bytes ++ 10 ::
        (payload ++ newline ++ (marker.bytes ++ 10 :: rest)))) marker = payload ↔
      ¬ LineBegins 10 marker.bytes payload := by
  have hterminated : Terminated 10 (payload ++ newline) := terminated_concat payload
  have hlines : LineBegins 10 marker.bytes (payload ++ newline) ↔
      LineBegins 10 marker.bytes payload :=
    lineBegins_concat marker.newline_notMem marker.bytes_ne_nil payload
  rw [streamBinaryPayload, tailFrom_append hfront hno]
  by_cases hbegins : LineBegins 10 marker.bytes payload
  · obtain ⟨n, hn, heq⟩ := headLines_of_begins hterminated (hlines.mpr hbegins)
      (marker.bytes ++ 10 :: rest)
    rw [heq, iff_false_right (not_not.mpr hbegins)]
    intro hstream
    have hlt := length_flatten_take_lt hn
    have hlength := congrArg List.length hstream
    rw [List.length_dropLast] at hlength
    have hone : newline.length = 1 := rfl
    rw [List.length_append, hone] at hlt
    -- there is nothing in front of that line, and the payload would be empty
    have hzero : payload.length = 0 := by omega
    obtain ⟨line, hline, -⟩ := hbegins
    rw [List.length_eq_zero_iff.mp hzero] at hline
    cases hline
  · rw [headLines_of_not hterminated (fun h => hbegins (hlines.mp h)), iff_true_right hbegins]
    exact List.dropLast_concat

/-! ### The writer -/

section

variable {checkout : Checkout} {call : Str → List Str → Except MakeError (Bytes × List Str)}
  {filePath : Str}

/-- A line that is neither an import nor a payload. -/
theorem preprocessLine_of_head {line : Str} (h : line.head? ≠ some '#') (contents : Bytes)
    (seen : List Str) :
    preprocessLine checkout call filePath (contents, seen) line =
      .ok (contents ++ utf8 line, seen) := by
  have hno (start : Str) : ('#' :: start).isPrefixOf line = false := by
    cases line with
    | nil => rfl
    | cons c line =>
      have hc : '#' ≠ c := fun heq => h (congrArg some heq.symm)
      rw [List.isPrefixOf, beq_false_of_ne hc, Bool.false_and]
  have himport : "#!import ".toList.isPrefixOf line = false := hno _
  have hpayload : "#!binaryPayloadFrom ".toList.isPrefixOf line = false := hno _
  simp only [preprocessLine, himport, hpayload, Bool.false_eq_true, if_false]
  rfl

theorem preprocessLine_payload {cmd : Str} (hcmd : payloadCmd
      ("#!binaryPayloadFrom ".toList ++ (cmd ++ ['\n'])) = cmd) {payload : Bytes}
    (hout : checkout.checkOutput (dirname filePath) cmd = .ok payload) (contents : Bytes)
    (seen : List Str) :
    preprocessLine checkout call filePath (contents, seen)
        ("#!binaryPayloadFrom ".toList ++ (cmd ++ ['\n'])) =
      .ok (contents ++ payload ++ newline, seen) := by
  have himport : "#!import ".toList.isPrefixOf
      ("#!binaryPayloadFrom ".toList ++ (cmd ++ ['\n'])) = false := rfl
  have hpayload : "#!binaryPayloadFrom ".toList.isPrefixOf
      ("#!binaryPayloadFrom ".toList ++ (cmd ++ ['\n'])) = true :=
    List.isPrefixOf_iff_prefix.mpr (List.prefix_append _ _)
  simp only [preprocessLine, himport, hpayload, Bool.false_eq_true, if_false, if_true, hcmd, hout]
  rfl

/-- A line adds its text, or something with an end. -/
theorem exists_append_of_line {line : Str} {state state' : Bytes × List Str}
    (h : preprocessLine checkout call filePath state line = .ok state') :
    ∃ more, state'.1 = state.1 ++ more ∧ (more = utf8 line ∨ ∃ text, more = text ++ newline) := by
  obtain ⟨contents, seen⟩ := state
  rw [preprocessLine] at h
  split at h
  · dsimp only at h
    split at h
    · obtain ⟨⟨text, seen'⟩, -, hret⟩ := exists_of_bind_ok h
      cases hret
      exact ⟨text ++ newline, List.append_assoc _ _ _, .inr ⟨text, rfl⟩⟩
    · cases h
  · split at h
    · obtain ⟨payload, -, hret⟩ := exists_of_bind_ok h
      cases hret
      exact ⟨payload ++ newline, List.append_assoc _ _ _, .inr ⟨payload, rfl⟩⟩
    · cases h
      exact ⟨utf8 line, rfl, .inl rfl⟩

theorem exists_append_of_lines {lines : List Str} {state state' : Bytes × List Str}
    (h : lines.foldlM (preprocessLine checkout call filePath) state = .ok state') :
    ∃ more, state'.1 = state.1 ++ more := by
  induction lines generalizing state with
  | nil =>
    cases h
    exact ⟨[], (List.append_nil _).symm⟩
  | cons line lines ih =>
    rw [List.foldlM_cons] at h
    obtain ⟨state₁, hline, hrest⟩ := exists_of_bind_ok h
    obtain ⟨more, hmore, -⟩ := exists_append_of_line hline
    obtain ⟨more', hmore'⟩ := ih hrest
    exact ⟨more ++ more', by rw [hmore', hmore, List.append_assoc]⟩

/-- What stands for lines with ends has an end. -/
theorem terminated_of_lines {lines : List Str}
    (hlines : ∀ line ∈ lines, ∃ front, line = front ++ ['\n']) {state state' : Bytes × List Str}
    (hstate : Terminated 10 state.1)
    (h : lines.foldlM (preprocessLine checkout call filePath) state = .ok state') :
    Terminated 10 state'.1 := by
  induction lines generalizing state with
  | nil =>
    cases h
    exact hstate
  | cons line lines ih =>
    rw [List.foldlM_cons] at h
    obtain ⟨state₁, hline, hrest⟩ := exists_of_bind_ok h
    have hstate₁ : Terminated 10 state₁.1 := by
      obtain ⟨more, hmore, hend⟩ := exists_append_of_line hline
      rw [hmore]
      refine hstate.append ?_
      rcases hend with rfl | ⟨text, rfl⟩
      · obtain ⟨front, rfl⟩ := hlines line List.mem_cons_self
        rw [utf8_concat]
        exact terminated_concat _
      · exact terminated_concat _
    exact ih (fun l hl => hlines l (List.mem_cons_of_mem _ hl)) hstate₁ hrest

end

/-! ### Payloads -/

/-- A command that `make.py` runs as it stands in a line: taking the characters of the
instruction away takes nothing of the command. -/
def isPlainCmd (cmd : Str) : Bool :=
  !cmd.contains '\n' &&
    cmd.head?.any (fun c => !("#!binaryPayloadFrom ".toList.contains c || isPySpace c)) &&
    cmd.getLast?.any fun c => !isPySpace c

/-- The lines for a payload in the source of the installer: the marker, the command behind
`#!binaryPayloadFrom`, and the marker again. -/
def payloadBlock (marker : Marker) (cmd : Str) : Str :=
  marker.name ++ '\n' :: ("#!binaryPayloadFrom ".toList ++ cmd ++
    '\n' :: (marker.name ++ ['\n']))

/-- What stands for the first lines of a script. -/
def preprocessFront (checkout : Checkout) (fuel : ℕ) (filePath front : Str) :
    Except MakeError (Bytes × List Str) :=
  (keptLines '\n' front).foldlM (preprocessLine checkout (preprocess checkout fuel) filePath)
    ([], [filePath])

theorem keptLines_payloadBlock (marker : Marker) {cmd : Str} (hcmd : '\n' ∉ cmd) (after : Str) :
    keptLines '\n' (payloadBlock marker cmd ++ after) =
      (marker.name ++ ['\n']) :: ("#!binaryPayloadFrom ".toList ++ (cmd ++ ['\n'])) ::
        (marker.name ++ ['\n']) :: keptLines '\n' after := by
  have hmarker : '\n' ∉ marker.name := marker.notMem_name (by decide)
  have hline : '\n' ∉ "#!binaryPayloadFrom ".toList ++ cmd := by
    intro hmem
    rcases List.mem_append.mp hmem with hmem | hmem
    · exact absurd hmem (by decide)
    · exact hcmd hmem
  have heq : payloadBlock marker cmd ++ after =
      marker.name ++ '\n' :: ("#!binaryPayloadFrom ".toList ++ cmd ++
        '\n' :: (marker.name ++ '\n' :: after)) := by
    simp only [payloadBlock, List.append_assoc, List.cons_append, List.nil_append]
  rw [heq, keptLines_line hmarker, keptLines_line hline, keptLines_line hmarker, List.append_assoc]

/-- Taking away what `p` takes from both ends leaves what `p` does not take. -/
theorem stripBy_eq {p : Char → Bool} {front mid back : Str} (hfront : ∀ c ∈ front, p c = true)
    (hback : ∀ c ∈ back, p c = true) {c d : Char} {tail init : Str} (hhead : mid = c :: tail)
    (hc : p c = false) (hlast : mid = init ++ [d]) (hd : p d = false) :
    stripBy p (front ++ (mid ++ back)) = mid := by
  have hkeep : (mid ++ back).dropWhile p = mid ++ back := by
    rw [hhead]
    exact List.dropWhile_cons_of_neg (by rw [hc]; exact Bool.false_ne_true)
  have hkeep' : mid.reverse.dropWhile p = mid.reverse := by
    rw [hlast, List.reverse_append]
    exact List.dropWhile_cons_of_neg (by rw [hd]; exact Bool.false_ne_true)
  have hback' : ∀ c ∈ back.reverse, p c = true := fun c hc => hback c (List.mem_reverse.mp hc)
  rw [stripBy, List.dropWhile_append_of_pos hfront, hkeep, List.reverse_append,
    List.dropWhile_append_of_pos hback', hkeep', List.reverse_reverse]

theorem isPlainCmd_iff {cmd : Str} : isPlainCmd cmd = true ↔ '\n' ∉ cmd ∧
    (∃ c tail, cmd = c :: tail ∧ "#!binaryPayloadFrom ".toList.contains c = false ∧
      isPySpace c = false) ∧
    ∃ init d, cmd = init ++ [d] ∧ isPySpace d = false := by
  rw [isPlainCmd, Bool.and_eq_true, Bool.and_eq_true, and_assoc]
  refine and_congr ?_ (and_congr ?_ ?_)
  · rw [Bool.not_eq_true', List.contains_eq_mem, decide_eq_false_iff_not]
  · cases cmd with
    | nil => simp
    | cons c tail =>
      rw [List.head?_cons, Option.any_some, Bool.not_eq_true', Bool.or_eq_false_iff]
      constructor
      · intro h
        exact ⟨c, tail, rfl, h⟩
      · rintro ⟨c', tail', heq, h⟩
        obtain ⟨rfl, -⟩ := List.cons.inj heq
        exact h
  · cases cmd using List.reverseRecOn with
    | nil => simp
    | append_singleton init d =>
      rw [List.getLast?_concat, Option.any_some, Bool.not_eq_true']
      constructor
      · intro h
        exact ⟨init, d, rfl, h⟩
      · rintro ⟨init', d', heq, h⟩
        obtain ⟨-, hd⟩ := List.append_inj' heq rfl
        obtain ⟨rfl, -⟩ := List.cons.inj hd
        exact h

theorem payloadCmd_eq {cmd : Str} (h : isPlainCmd cmd = true) :
    payloadCmd ("#!binaryPayloadFrom ".toList ++ (cmd ++ ['\n'])) = cmd := by
  obtain ⟨-, ⟨c, tail, hhead, hchars, hspace⟩, init, d, hlast, hd⟩ := isPlainCmd_iff.mp h
  -- the newline keeps what is in front of it
  have hstrip : strip "#!binaryPayloadFrom ".toList
      ("#!binaryPayloadFrom ".toList ++ (cmd ++ ['\n'] ++ [])) = cmd ++ ['\n'] :=
    stripBy_eq (fun c hc => List.contains_iff_mem.mpr hc) (fun c hc => absurd hc List.not_mem_nil)
      (congrArg (· ++ ['\n']) hhead) hchars rfl (by decide)
  have hspaces : stripBy isPySpace ([] ++ (cmd ++ ['\n'])) = cmd := by
    refine stripBy_eq (fun c hc => absurd hc List.not_mem_nil) ?_ hhead hspace hlast hd
    intro c hc
    rw [List.mem_singleton.mp hc]
    decide
  rw [payloadCmd, ← List.append_nil (cmd ++ ['\n']), hstrip]
  exact hspaces

/-- **What the installer reads** of its own text is what the command has printed, exactly when no
line of that begins with the marker: for a script with lines for a payload, where what stands for
the lines in front of them has no line that begins with the marker. -/
theorem stream_preprocess {checkout : Checkout} {fuel : ℕ} {marker : Marker}
    {mainScript before cmd after : Str} {payload contents : Bytes} {files : List Str}
    (hread : checkout.read mainScript = .ok (before ++ (payloadBlock marker cmd ++ after)))
    (hbefore : Terminated '\n' before) (hcmd : isPlainCmd cmd = true)
    (hfront : ∀ head seen, preprocessFront checkout fuel mainScript before = .ok (head, seen) →
      ¬ LineBegins 10 marker.bytes head)
    (hout : checkout.checkOutput (dirname mainScript) cmd = .ok payload)
    (h : preprocess checkout (fuel + 1) mainScript [] = .ok (contents, files)) :
    streamBinaryPayload contents marker = payload ↔ ¬ LineBegins 10 marker.bytes payload := by
  have hcmdnl : '\n' ∉ cmd := (isPlainCmd_iff.mp hcmd).1
  -- the loop over the lines, up to the marker
  have hunseen : ¬ ([] : List Str).contains mainScript = true := Bool.false_ne_true
  rw [preprocess, if_neg hunseen, hread] at h
  obtain ⟨text, htext, hfold⟩ := exists_of_bind_ok h
  obtain rfl := Except.ok.inj htext
  rw [keptLines_append hbefore, keptLines_payloadBlock marker hcmdnl, List.foldlM_append] at hfold
  obtain ⟨⟨head, seen⟩, hfrontRun, hfold⟩ := exists_of_bind_ok hfold
  -- the lines of the payload
  have hmarkerHead := marker.head?_ne ['\n']
  rw [List.foldlM_cons, preprocessLine_of_head hmarkerHead] at hfold
  obtain ⟨state₁, hstate₁, hfold⟩ := exists_of_bind_ok hfold
  obtain rfl := Except.ok.inj hstate₁
  rw [List.foldlM_cons, preprocessLine_payload (payloadCmd_eq hcmd) hout] at hfold
  obtain ⟨state₂, hstate₂, hfold⟩ := exists_of_bind_ok hfold
  obtain rfl := Except.ok.inj hstate₂
  rw [List.foldlM_cons, preprocessLine_of_head hmarkerHead] at hfold
  obtain ⟨state₃, hstate₃, hfold⟩ := exists_of_bind_ok hfold
  obtain rfl := Except.ok.inj hstate₃
  obtain ⟨more, hmore⟩ := exists_append_of_lines hfold
  have hcontents : contents = head ++ (marker.bytes ++ 10 :: (payload ++ newline ++
      (marker.bytes ++ 10 :: more))) := by
    refine hmore.trans ?_
    simp only [Marker.bytes, utf8_concat, newline, List.append_assoc, List.cons_append,
      List.nil_append]
  have hterminated : Terminated 10 head :=
    terminated_of_lines (fun line hmem => exists_of_mem_keptLines hbefore hmem) terminated_nil
      hfrontRun
  rw [hcontents]
  exact stream_append hterminated (hfront head seen hfrontRun) more

/-- The marker of the resources of the server. -/
def serverMarker : Marker where
  name := "__PAYLOAD_SERVER_RESOURCES__".toList
  ne_nil := by decide
  isWord := by decide

/-- The marker of the first of the two payloads in the installer, which every installation
unpacks. -/
def lapasMarker : Marker where
  name := "__PAYLOAD_LAPAS_RESOURCES__".toList
  ne_nil := by decide
  isWord := by decide

/-- The command for the resources of the server. -/
def serverCmd : Str :=
  "cd ../res/server && tar -cf - ./ | gzip -9 | base64 -w 0".toList

/-- What is in front of the second payload of the installer. -/
def installerFront : Str :=
  "logInfo \"Installing...\";\n".toList ++
    payloadBlock lapasMarker "cd ../res/lapas && ls".toList

/-- A checkout in which every command prints the same. -/
def twoPayloads : Checkout where
  cwd := "/lapas".toList
  isfile path := path = "/lapas/src/lapas.sh".toList
  read _ := .ok (installerFront ++ (payloadBlock serverMarker serverCmd ++ []))
  checkOutput _ _ := .ok (utf8 "H4sIAAAAAAACA+3OMQ".toList)

theorem stream_preprocess_server : ∃ contents files,
    preprocess twoPayloads 1 "/lapas/src/lapas.sh".toList [] = .ok (contents, files) ∧
      streamBinaryPayload contents serverMarker = utf8 "H4sIAAAAAAACA+3OMQ".toList := by
  obtain ⟨⟨contents, files⟩, h, -⟩ : ∃ r,
      preprocess twoPayloads 1 "/lapas/src/lapas.sh".toList [] = .ok r ∧ True :=
    exists_ok_of_decide (by decide +kernel)
  obtain ⟨⟨head, seen⟩, hrun, hno⟩ : ∃ r,
      preprocessFront twoPayloads 0 "/lapas/src/lapas.sh".toList installerFront = .ok r ∧
        ¬ LineBegins 10 serverMarker.bytes r.1 :=
    exists_ok_of_decide (by decide +kernel)
  have hread : twoPayloads.read "/lapas/src/lapas.sh".toList =
      .ok (installerFront ++ (payloadBlock serverMarker serverCmd ++ [])) := rfl
  have hfront : Terminated '\n' installerFront := by
    intro c hc
    have hlast : installerFront.getLast? = some '\n' := by decide
    exact (Option.some.inj (hlast.symm.trans hc)).symm
  have hcmd : isPlainCmd serverCmd = true := by decide
  refine ⟨contents, files, h, (stream_preprocess hread hfront hcmd ?_ rfl h).mpr ?_⟩
  swap
  · decide +kernel
  intro head' seen' hrun'
  rw [hrun] at hrun'
  obtain ⟨rfl, -⟩ := Prod.mk.inj (Except.ok.inj hrun')
  exact hno

end Install
end Lapas

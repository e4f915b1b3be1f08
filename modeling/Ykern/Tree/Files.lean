import Ykern.Foundation.ReadLoop
import Ykern.Tree.Nodes

/-!
# Invoking a file

Invoking a file reads it, in whatever pieces the kernel has it, and shows what was read behind
its length. The length counts all bytes, and the bytes are shown as a C string. So the file
is shown as a whole if there is no NUL in it (`fileInvoke_shows_iff`).
-/

set_option autoImplicit false

namespace Ykern.Tree

open Overlay

/-- The results of the calls of `file_invoke`: of `readlink`, of `open`, which may have an `errno`
or the contents of the file, and of `read`, and whether the allocations succeed. -/
structure FileEnv where
  readlink : Except Nat Bytes
  opened : Except Nat Bytes
  buffer : Bool
  turns : Nat → Turn
  strerror : Nat → CStr
  formats : Bool

/-- `ykern_ycore_text_format`. -/
def FileEnv.textFormat (env : FileEnv) (text : CStr) : Except Error CStr :=
  if env.formats then .ok text else .error ["ykern_ycore_text_format: malloc failed"]

/-- How much of a file is read. -/
def readMax : Nat := 65535

/-- Without the newline at the end, if there is one. -/
def trimNewline (buf : Bytes) : Bytes := if buf.getLast? = some 10 then buf.dropLast else buf

/-- The text of a failed call. -/
def failedText (call : String) (fsPath : CStr) (reason : CStr) : CStr :=
  lit call ++ lit "('" ++ fsPath ++ lit "') failed: " ++ reason

/-- The text for a buffer that holds these bytes and a NUL. -/
def readText (fsPath : CStr) (buf : Bytes) : CStr :=
  if buf = [] then fsPath ++ lit "\n  (empty)\n"
  else fsPath ++ lit "\n  read " ++ decimal buf.length ++ lit " byte" ++
    (if buf.length = 1 then [] else lit "s") ++ lit ":\n\n" ++ cString (buf ++ [0]) ++ lit "\n"

/-- `file_invoke`, with this many calls of `read` at most. -/
def fileInvoke (fs : Fs) (env : FileEnv) (steps : Nat) (fsPath : CStr) (isSymlink : Bool) :
    Option (Except Error CStr) :=
  if isSymlink then
    match env.readlink with
    | .error errno => some (env.textFormat (failedText "readlink" fsPath (env.strerror errno)))
    | .ok target =>
        some (env.textFormat (fsPath ++ lit " -> " ++
          cString (target.take (pathMax - 1) ++ [0]) ++ lit "\n"))
  else
    match env.opened with
    | .error errno => some (env.textFormat (failedText "open" fsPath (env.strerror errno)))
    | .ok content =>
        if env.buffer = false then some (.error (fs.failed "read buffer alloc failed"))
        else
          match readLoop readMax content env.turns steps 0 [] with
          | none => none
          | some (.error errno) =>
              some (env.textFormat (failedText "read" fsPath (env.strerror errno)))
          | some (.ok buf) => some (env.textFormat (readText fsPath (trimNewline buf)))

/-- `file_invoke` of `ysys`. -/
def ysysFileInvoke : FileEnv → Nat → CStr → Bool → Option (Except Error CStr) := fileInvoke .sys

/-- `file_invoke` of `yproc`. -/
def yprocFileInvoke : FileEnv → Nat → CStr → Bool → Option (Except Error CStr) := fileInvoke .proc

/-- What is to be shown of a file. -/
def fileBody (content : Bytes) : Bytes := trimNewline (content.take readMax)

/-- A file, with its length. -/
def wholeText (fsPath : CStr) (content : Bytes) : CStr :=
  let body := fileBody content
  if body = [] then fsPath ++ lit "\n  (empty)\n"
  else fsPath ++ lit "\n  read " ++ decimal body.length ++ lit " byte" ++
    (if body.length = 1 then [] else lit "s") ++ lit ":\n\n" ++ body ++ lit "\n"

section FileInvoke

variable {env : FileEnv} {content : Bytes} {bound : Nat}

/-- **What is invoked is shown**, in whatever pieces it is read. -/
theorem fileInvoke_eq (fs : Fs) (fsPath : CStr) (opened : env.opened = .ok content)
    (buffer : env.buffer = true) (formats : env.formats = true)
    (unfailing : ∀ i errno, env.turns i ≠ .failed errno)
    (finitely : ∀ i, bound ≤ i → env.turns i ≠ .interrupted) {steps : Nat}
    (further : bound + readMax < steps) :
    fileInvoke fs env steps fsPath false = some (.ok (readText fsPath (fileBody content))) := by
  rw [fileInvoke, if_neg Bool.noConfusion, opened]
  simp only [buffer, readLoop_eq unfailing finitely further, FileEnv.textFormat, formats]
  rfl

/-- The bytes in front of a NUL are all of them if there is none. -/
theorem cString_concat_nul_eq_iff {body : Bytes} : cString (body ++ [0]) = body ↔ 0 ∉ body := by
  rw [cString_concat_nul]
  constructor
  · intro whole member
    rw [cString, List.takeWhile_eq_self_iff] at whole
    exact absurd (whole 0 member) (by decide)
  · exact cString_eq_self

/-- The text has the whole file if there is no NUL in it. -/
theorem readText_eq_iff (fsPath : CStr) (content : Bytes) :
    readText fsPath (fileBody content) = wholeText fsPath content ↔ 0 ∉ fileBody content := by
  rw [readText, wholeText]
  by_cases empty : fileBody content = []
  · simp [empty]
  · rw [if_neg empty, if_neg empty, List.append_left_inj, List.append_right_inj]
    exact cString_concat_nul_eq_iff

/-- **A file is shown as a whole exactly if no NUL is in what is shown of it.** -/
theorem fileInvoke_shows_iff {invoke : FileEnv → Nat → CStr → Bool → Option (Except Error CStr)}
    (isFile : invoke ∈ [ysysFileInvoke, yprocFileInvoke]) (fsPath : CStr)
    (opened : env.opened = .ok content) (buffer : env.buffer = true) (formats : env.formats = true)
    (unfailing : ∀ i errno, env.turns i ≠ .failed errno)
    (finitely : ∃ bound, ∀ i, bound ≤ i → env.turns i ≠ .interrupted) :
    (∃ enough, ∀ steps, enough ≤ steps →
        invoke env steps fsPath false = some (.ok (wholeText fsPath content))) ↔
      0 ∉ fileBody content := by
  obtain ⟨fs, rfl⟩ : ∃ fs, invoke = fileInvoke fs := by
    rcases List.mem_pair.mp isFile with rfl | rfl
    · exact ⟨.sys, rfl⟩
    · exact ⟨.proc, rfl⟩
  obtain ⟨bound, finitely⟩ := finitely
  have shown {steps : Nat} (further : bound + readMax < steps) :=
    fileInvoke_eq fs fsPath opened buffer formats unfailing finitely further
  rw [← readText_eq_iff fsPath content]
  constructor
  · rintro ⟨enough, whole⟩
    have text := whole (enough + bound + readMax + 1) (by omega)
    rw [shown (by omega)] at text
    exact Except.ok.inj (Option.some.inj text)
  · intro same
    refine ⟨bound + readMax + 1, fun steps further => ?_⟩
    rw [shown further, same]

end FileInvoke

/-- A file with these contents, which is read three bytes at a time after an interruption. -/
def threeByThree (content : Bytes) : FileEnv where
  readlink := .error 22
  opened := .ok content
  buffer := true
  turns := fun i => if i = 0 then .interrupted else .upTo 2
  strerror := fun _ => []
  formats := true

theorem threeByThree_unfailing (content : Bytes) (i errno : Nat) :
    (threeByThree content).turns i ≠ .failed errno := by
  simp only [threeByThree]
  split
  · intro impossible
    cases impossible
  · intro impossible
    cases impossible

theorem threeByThree_finitely (content : Bytes) (i : Nat) (late : 1 ≤ i) :
    (threeByThree content).turns i ≠ .interrupted := by
  simp only [threeByThree, if_neg (Nat.ne_of_gt late)]
  intro impossible
  cases impossible

/-- The state of an interface is shown. -/
theorem operstate_shown : ∃ enough, ∀ steps, enough ≤ steps →
    ysysFileInvoke (threeByThree (lit "up\n")) steps (lit "/sys/operstate") false =
      some (.ok (wholeText (lit "/sys/operstate") (lit "up\n"))) :=
  (fileInvoke_shows_iff List.mem_cons_self (lit "/sys/operstate") rfl rfl rfl
    (threeByThree_unfailing _) ⟨1, threeByThree_finitely _⟩).mpr (by decide)

/-- The arguments of a process, each with a NUL behind it. -/
def cmdline : Bytes := lit "cat" ++ [0] ++ lit "a" ++ [0]

/-- Of the arguments of a process the first is shown, as if it were all. -/
theorem cmdline_cut :
    let text := lit "/proc/1/cmdline\n  read 6 bytes:\n\ncat\n"
    (∃ enough, ∀ steps, enough ≤ steps →
        yprocFileInvoke (threeByThree cmdline) steps (lit "/proc/1/cmdline") false =
          some (.ok text)) ∧
      text ≠ wholeText (lit "/proc/1/cmdline") cmdline := by
  intro text
  have isText : readText (lit "/proc/1/cmdline") (fileBody cmdline) = text := by decide
  refine ⟨⟨1 + readMax + 1, fun steps further => ?_⟩, ?_⟩
  · rw [yprocFileInvoke, fileInvoke_eq .proc (lit "/proc/1/cmdline") rfl rfl rfl
      (threeByThree_unfailing _) (threeByThree_finitely _) further, isText]
  · rw [← isText, ne_eq, readText_eq_iff]
    intro free
    exact free (by decide)

end Ykern.Tree

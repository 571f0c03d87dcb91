import Rvx.Registry.UiSaves

/-!
# The save contract

What holds of the stored dashboard documents along every run of calls by any browsers: each move
is a compare-and-swap or a pruning, no accepted save is applied twice, the mutation accepted last
can be repeated while its document stands, and its identifier cannot be reused.
-/

namespace Rvx.Registry.UiStore

open Core Check

variable {text : RequestText} {store : UiStore}

/-! ## Revisions -/

def sampleBrowser : String := "browser_00000000000000000000000000000001"

def sampleRegistry : Repository :=
  Repository.empty.run (fun _ ↦ .ok ())
    [.createProject "project_1" "p" 0, .createExperiment "experiment_1" "project_1" "e" 0]

def sampleSet : WorkspaceSet := ⟨"set_1", "Board", "experiment_1", [], [⟨"main", "", false⟩]⟩

def sampleLayout : SaveWorkspaces := ⟨0, "layout", [sampleSet]⟩

def sampleSelect : SaveBrowserPreferences :=
  ⟨0, "select", .light, 280, .ofList [("experiment_1", "set_1")], .empty⟩

/-- The texts of the requests above. -/
def sampleText : RequestText where
  workspaces input :=
    if input = sampleLayout then
      "\x7b\"revision\":0,\"mutation_id\":\"layout\",\"sets\":[\x7b\"id\":\"set_1\"," ++
        "\"name\":\"Board\",\"experimentId\":\"experiment_1\",\"panels\":[]," ++
        "\"sections\":[\x7b\"id\":\"main\",\"name\":\"\",\"collapsed\":false\x7d]\x7d]\x7d"
    else "\x7b\"revision\":1,\"mutation_id\":\"clear\",\"sets\":[]\x7d"
  browser input :=
    "\x7b\"revision\":" ++ (if input = sampleSelect then "0,\"mutation_id\":\"select\"," ++
        "\"theme\":\"light\"" else "1,\"mutation_id\":\"dark\",\"theme\":\"dark\"") ++
      ",\"sidebar_width\":280,\"selected\":\x7b\"experiment_1\":\"set_1\"\x7d," ++
      "\"run_colors\":\x7b\x7d\x7d"

end Rvx.Registry.UiStore

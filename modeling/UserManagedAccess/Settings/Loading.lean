import UserManagedAccess.Error
import UserManagedAccess.Settings.Conversion
import UserManagedAccess.Settings.Source

/-! The settings of a server from a file and the environment: the environment wins over the file,
the file over the defaults. -/
namespace UserManagedAccess.Settings
variable [FileFormats]

/-- The tree of all that the sources give. -/
def tree? (file : SettingsFile) (environment : List (String × String)) : Option SettingTree :=
  file.entries?.map fun entries =>
    SettingTree.putAll (EnvironmentVariable.entries environment)
      (SettingTree.putAll entries (.table []))

def load (file : SettingsFile) (environment : List (String × String)) : Except Error Settings :=
  match (tree? file environment).bind SettingTree.toSettings? with
  | some settings => .ok settings
  | none => .error (.config .invalidSettings)

end UserManagedAccess.Settings

import Musgravite.Library.TransitionSystem
import Musgravite.Library.FieldValues
import Musgravite.Library.DocumentStore
import Musgravite.Library.FanOut
import Musgravite.Library.Callbacks
import Musgravite.Library.RequestProgram
import Musgravite.Library.Reduction
import Musgravite.Library.AtomicRoutines
import Musgravite.Library.Blocks
import Musgravite.Library.Groups
import Musgravite.Library.Patterns
import Musgravite.Library.Splitting
import Musgravite.Library.Tables
import Musgravite.Firestore.UserData
import Musgravite.Models
import Musgravite.Getters
import Musgravite.Writes
import Musgravite.Schema
import Musgravite.UploadRuns
import Musgravite.Downloads
import Musgravite.TeamUpdates
import Musgravite.TwoStepWrites
import Musgravite.TeamCreation
import Musgravite.Session
import Musgravite.TeamSelection
import Musgravite.CreatorVisit
import Musgravite.GroupScreens
import Musgravite.TeamVisibility
import Musgravite.TeamDisjointness
import Musgravite.SchoolSearch
import Musgravite.SearchTable
import Musgravite.LabDetail
import Musgravite.FileNames
import Musgravite.VideoCells
import Musgravite.Previews
import Musgravite.Navigation
import Musgravite.MenuLists
import Musgravite.BulletinManager
import Musgravite.Onboarding
import Musgravite.AccountCreation
import Musgravite.EmailPage
import Musgravite.HomeScreen
import Musgravite.MenuElements
import Musgravite.TaskMenu
import Musgravite.Firestore.FieldPaths
import Musgravite.Firestore.ResourcePaths
import Musgravite.Firestore.ObjectValues
import Musgravite.Firestore.Mutations
import Musgravite.Firestore.MutationQueue
import Musgravite.Firestore.LocalStore
import Musgravite.Firestore.RemoteStore
import Musgravite.Firestore.SyncEngine
import Musgravite.Firestore.WriteRuns
import Musgravite.Firestore.Reads
import Musgravite.Firestore.Queries
import Musgravite.Firestore.Reports
import Musgravite.Firestore.Views

import Newsbaoter.Cache.Columns
import Newsbaoter.Cache.Interrupted
import Newsbaoter.Cache.Retention
import Newsbaoter.Cache.Titles
import Newsbaoter.Config.Arguments
import Newsbaoter.Config.Bounds
import Newsbaoter.Config.ColorLine
import Newsbaoter.Config.Dispatch
import Newsbaoter.Config.HelpPage
import Newsbaoter.Config.Ignored
import Newsbaoter.Config.Settings
import Newsbaoter.Dates.Inherited
import Newsbaoter.Fetch.Coverage
import Newsbaoter.Fetch.NewEntries
import Newsbaoter.Fetch.Order
import Newsbaoter.Fetch.Retry
import Newsbaoter.Fetch.Selection
import Newsbaoter.Fetch.Teardown
import Newsbaoter.Hash.Growth
import Newsbaoter.Pager.Page
import Newsbaoter.Pager.Published
import Newsbaoter.Pager.Selected
import Newsbaoter.Program.Runs
import Newsbaoter.Program.Safety
import Newsbaoter.Program.Schedule
import Newsbaoter.Styles.Palette
import Newsbaoter.Styles.Screen
import Newsbaoter.Styles.Styled
import Newsbaoter.Styles.Toggled
import Newsbaoter.Support.DayNumbers
import Newsbaoter.Support.Writes
import Newsbaoter.Urls.File
import Newsbaoter.View.EntryText
import Newsbaoter.View.Filtered
import Newsbaoter.View.Overrun
import Newsbaoter.View.Repaints
import Newsbaoter.View.Undone
import Newsbaoter.View.Unresized
import Newsbaoter.Xml.Ownership
import Newsbaoter.Xsl.Republished

import KamuSinavi.Preferences
import KamuSinavi.Lib.Runs
import KamuSinavi.Notes.Delete
import KamuSinavi.Lib.LinkedMap
import KamuSinavi.History.Overlap
import KamuSinavi.History.Report
import KamuSinavi.History.ReportScreen
import KamuSinavi.History.Persisted
import KamuSinavi.Session.Selection
import KamuSinavi.Session.CustomTest
import KamuSinavi.Session.Timer
import KamuSinavi.Session.Scores
import KamuSinavi.PracticeExam.Final
import KamuSinavi.PracticeExam.FormScores
import KamuSinavi.PracticeExam.Deadline
import KamuSinavi.Bank.Manager
import KamuSinavi.Bank.Topics
import KamuSinavi.Chat.Receipts
import KamuSinavi.Chat.Unread
import KamuSinavi.Account.Roles
import KamuSinavi.Account.Delete
import KamuSinavi.Account.Form
import KamuSinavi.Notifications.Board
import KamuSinavi.Session.Reports
import KamuSinavi.Presence.Deletion
